import UsdAsset.Http.Uri
import UsdAsset.Lib.Segments
import UsdAsset.Resolver.Configuration

/-!
# Context over environment over default

A variable is set to what its parser makes of the text a lookup has for it, or to
its default.  A context admits the variables whose last value in the string
parses, each spelled as it was read, and lays them over the environment.
-/

namespace UsdAsset.Resolver

open ByteString Http Cache Segments

variable {min max value : ℕ} {text : Bytes} {policy : DestinationPolicy} {name : Variable}

/-! ### What a variable is set to -/

/-- The value of a variable, as its parser reads it. -/
inductive Setting where
  | count (value : Int)
  | destinations (policy : DestinationPolicy)
  | directory (path : Bytes)
  deriving DecidableEq, Repr

def countSetting (min max : ℕ) (text : Bytes) : Option Setting :=
  match parseCount text min max with
  | .error _ => none
  | .ok value => some (.count value)

def destinationsSetting (text : Bytes) : Option Setting :=
  match parseDestinations text with
  | .error _ => none
  | .ok policy => some (.destinations policy)

/-- What the parser of a variable makes of a text, if it takes it. -/
def Variable.parse : Variable → Bytes → Option Setting
  | .connectTimeout | .readTimeout | .totalTimeout => countSetting 1 3600000
  | .maxRetries | .maxRedirects => countSetting 0 100
  | .destinations => destinationsSetting
  | .blockSize => countSetting minBlockSize maxBlockSize
  | .cacheBudget => countSetting minBlockSize (64 * 1024 * 1024 * 1024)
  | .coalesceGap => countSetting 0 1024
  | .maxRequestBytes => countSetting minBlockSize (4 * 1024 * 1024 * 1024)
  | .persistentDirectory => fun text => if text = [] then none else some (.directory text)
  | .persistentBudget => countSetting minPersistentBudgetBytes (1024 * 1024 * 1024 * 1024)

/-- What a configuration has a variable set to. -/
def ResolverConfiguration.setting (configuration : ResolverConfiguration) : Variable → Setting
  | .connectTimeout => .count configuration.transport.connectTimeoutMs
  | .readTimeout => .count configuration.transport.responseTimeoutMs
  | .totalTimeout => .count configuration.transport.transferTimeoutMs
  | .maxRetries => .count (configuration.transport.maxAttempts - 1)
  | .maxRedirects => .count configuration.transport.maxRedirects
  | .destinations => .destinations configuration.transport.destinations
  | .blockSize => .count configuration.cache.blockSize
  | .cacheBudget => .count configuration.cache.budgetBytes
  | .coalesceGap => .count configuration.cache.coalesceGapBlocks
  | .maxRequestBytes => .count configuration.cache.maxRequestBytes
  | .persistentDirectory => .directory configuration.persistence.directory
  | .persistentBudget => .count configuration.persistence.budgetBytes

def Setting.spell : Setting → Bytes
  | .count value => decimalInt value
  | .destinations policy => destinationsString policy
  | .directory path => path

theorem name_injective : ∀ first second : Variable, first.name = second.name → first = second := by
  intro first second
  cases first <;> cases second <;> decide

@[simp]
theorem name_inj (first second : Variable) : first.name = second.name ↔ first = second :=
  ⟨name_injective first second, congrArg Variable.name⟩

@[simp]
theorem name_beq (first second : Variable) :
    (first.name == second.name) = decide (first = second) := by
  rw [Bool.eq_iff_iff]
  simp

section Reading

variable (lookup : EnvironmentLookup) (name : Variable) (min max : ℕ)

theorem readCount_eq {α : Type} [NatCast α] (value : α → Int)
    (cast : ∀ count : ℕ, value count = count) (target : α) :
    Setting.count (value (readCount lookup name min max target).1) =
      ((lookup name.name).bind (countSetting min max)).getD (.count (value target)) := by
  simp only [readCount]
  cases lookup name.name with
  | none => rfl
  | some text =>
    cases read : parseCount text min max <;> simp [countSetting, read, cast]

theorem readInto_eq (target : Int) :
    Setting.count (readInto lookup name min max target).1 =
      ((lookup name.name).bind (countSetting min max)).getD (.count target) :=
  readCount_eq lookup name min max id (fun _ => rfl) target

theorem readBytesInto_eq (target : ℕ) :
    Setting.count (readBytesInto lookup name min max target).1 =
      ((lookup name.name).bind (countSetting min max)).getD (.count target) :=
  readCount_eq lookup name min max Nat.cast (fun _ => rfl) target

theorem readDestinations_eq (target : DestinationPolicy) :
    Setting.destinations (readDestinations lookup target).1 =
      ((lookup Variable.destinations.name).bind Variable.destinations.parse).getD
        (.destinations target) := by
  simp only [readDestinations, Variable.parse]
  cases lookup Variable.destinations.name with
  | none => rfl
  | some text => cases read : parseDestinations text <;> simp [destinationsSetting, read]

theorem readDirectory_eq (target : Bytes) :
    Setting.directory (readDirectory lookup target).1 =
      ((lookup Variable.persistentDirectory.name).bind Variable.persistentDirectory.parse).getD
        (.directory target) := by
  simp only [readDirectory, Variable.parse]
  cases lookup Variable.persistentDirectory.name with
  | none => rfl
  | some text => cases text <;> simp

end Reading

theorem setting_configurationFrom (lookup : EnvironmentLookup) (name : Variable) :
    (configurationFrom lookup).1.setting name =
      ((lookup name.name).bind name.parse).getD (({} : ResolverConfiguration).setting name) := by
  cases name with
  | maxRetries =>
    refine Eq.trans ?_ (readInto_eq lookup .maxRetries 0 100 2)
    simp [ResolverConfiguration.setting, configurationFrom, optionsFrom]
  | destinations => exact readDestinations_eq lookup {}
  | persistentDirectory => exact readDirectory_eq lookup []
  | connectTimeout | readTimeout | totalTimeout | maxRedirects => exact readInto_eq lookup _ _ _ _
  | blockSize | cacheBudget | coalesceGap | maxRequestBytes | persistentBudget =>
    exact readBytesInto_eq lookup _ _ _ _

/-! ### What is refused -/

/-- Whether some problem says that the value of a variable is not used. -/
def refuses (problems : List ConfigurationProblem) (name : Bytes) : Bool :=
  problems.any fun problem => problem.name == name && !problem.adjusted

@[simp]
theorem refuses_append (first second : List ConfigurationProblem) (name : Bytes) :
    refuses (first ++ second) name = (refuses first name || refuses second name) :=
  List.any_append

theorem refuses_readCount {α : Type} [NatCast α] (lookup : EnvironmentLookup) (name : Variable)
    (min max : ℕ) (target : α) (other : Variable) :
    refuses (readCount lookup name min max target).2 other.name =
      (decide (name = other) && (lookup name.name).any fun text =>
        (countSetting min max text).isNone) := by
  simp only [readCount]
  cases lookup name.name with
  | none => simp [refuses]
  | some text =>
    cases read : parseCount text min max <;>
      simp [refuses, countSetting, read]

theorem refuses_readDestinations (lookup : EnvironmentLookup) (target : DestinationPolicy)
    (other : Variable) :
    refuses (readDestinations lookup target).2 other.name =
      (decide (.destinations = other) && (lookup Variable.destinations.name).any fun text =>
        (Variable.destinations.parse text).isNone) := by
  simp only [readDestinations, Variable.parse]
  cases lookup Variable.destinations.name with
  | none => simp [refuses]
  | some text =>
    cases read : parseDestinations text <;> simp [refuses, destinationsSetting, read]

theorem refuses_readDirectory (lookup : EnvironmentLookup) (target : Bytes) (other : Variable) :
    refuses (readDirectory lookup target).2 other.name =
      (decide (.persistentDirectory = other) &&
        (lookup Variable.persistentDirectory.name).any fun text =>
          (Variable.persistentDirectory.parse text).isNone) := by
  simp only [readDirectory, Variable.parse]
  cases lookup Variable.persistentDirectory.name with
  | none => simp [refuses]
  | some text => cases text <;> simp [refuses]

@[simp]
theorem refuses_adjustment (name : Variable) (value normalized : ℕ) (reason other : Bytes) :
    refuses (adjustment name value normalized reason) other = false := by
  simp only [adjustment]
  split <;> simp [refuses, adjusted]

theorem refuses_configurationFrom (lookup : EnvironmentLookup) (name : Variable) :
    refuses (configurationFrom lookup).2 name.name =
      (lookup name.name).any fun text => (name.parse text).isNone := by
  simp only [configurationFrom, optionsFrom, cacheOptionsFrom, persistenceOptionsFrom, readInto,
    readBytesInto, refuses_append, refuses_readCount, refuses_readDestinations,
    refuses_readDirectory, refuses_adjustment]
  cases name <;> simp [Variable.parse]

/-! ### Values read back as they are spelled -/

theorem foldlM_countDigit_le {start : ℕ}
    (read : text.foldlM (countDigit min max) start = .ok value) (within : start ≤ max) :
    value ≤ max := by
  induction text generalizing start with
  | nil =>
    cases read
    exact within
  | cons byte rest ih =>
    rw [List.foldlM_cons, countDigit] at read
    split at read
    · dsimp only at read
      split at read
      · cases read
      · rename_i small
        exact ih read (Nat.not_lt.mp small)
    · cases read

theorem bounds_of_parseCount (parsed : parseCount text min max = .ok value) :
    min ≤ value ∧ value ≤ max := by
  simp only [parseCount] at parsed
  split at parsed
  · cases parsed
  · split at parsed
    · cases parsed
    · rename_i read
      split at parsed
      · cases parsed
      · rename_i large
        cases parsed
        exact ⟨Nat.not_lt.mp large, foldlM_countDigit_le read (Nat.zero_le max)⟩

theorem parseCount_decimal (above : min ≤ value) (below : value ≤ max) :
    parseCount (decimal value) min max = .ok value := by
  have reads : ∀ start last, last < 10 → start * 10 + last ≤ max →
      countDigit min max start (digit last) = pure (start * 10 + last) := by
    intro start last small fits
    rw [countDigit, if_pos (isDigit_digit last small), toNat_digit_sub_zero last small]
    exact if_neg (Nat.not_lt.mpr fits)
  simp only [parseCount]
  rw [if_neg (decimal_ne_nil value), foldlM_decimal reads below]
  exact if_neg (Nat.not_lt.mpr above)

variable {setting : Setting}

theorem countSetting_spell (parsed : countSetting min max text = some setting) :
    countSetting min max setting.spell = some setting := by
  simp only [countSetting] at parsed
  split at parsed
  · cases parsed
  · rename_i value read
    cases parsed
    rcases bounds_of_parseCount read with ⟨above, below⟩
    have again : parseCount (Setting.count value).spell min max = .ok value :=
      parseCount_decimal above below
    simp only [countSetting, again]

/-- A policy that permits something is read back as it is spelled. -/
theorem parseDestinations_destinationsString (policy : DestinationPolicy)
    (reaches : ∃ addressClass, policy.permits addressClass = true) :
    parseDestinations (destinationsString policy) = .ok policy := by
  rcases policy with ⟨publicAddresses, privateNetworks, loopback, linkLocal, metadata⟩
  rcases reaches with ⟨addressClass, permitted⟩
  revert publicAddresses privateNetworks loopback linkLocal metadata
  cases addressClass <;> decide +kernel

theorem permits_permitting (policy : DestinationPolicy) (addressClass other : AddressClass) :
    (permitting policy addressClass).permits other =
      (policy.permits other || decide (addressClass = other)) := by
  cases addressClass <;> cases other <;> simp [permitting, DestinationPolicy.permits]

theorem permits_foldl_permitting (known : List AddressClass) {addressClass : AddressClass}
    (permitted : policy.permits addressClass = true) :
    (known.foldl permitting policy).permits addressClass = true := by
  induction known generalizing policy with
  | nil => exact permitted
  | cons first rest ih =>
    apply ih
    rw [permits_permitting, permitted, Bool.true_or]

theorem reaches_of_admitDestination {next : DestinationPolicy} {entry : Bytes}
    (admits : admitDestination policy entry = .ok next) :
    ∃ addressClass, next.permits addressClass = true := by
  simp only [admitDestination] at admits
  split at admits
  · cases admits
  · generalize addressClasses.filter
      (fun addressClass => trim entry == addressClassName addressClass) = known at admits
    cases known with
    | nil => cases admits
    | cons first rest =>
      cases admits
      refine ⟨first, permits_foldl_permitting rest ?_⟩
      simp [permits_permitting]

/-- A list of destinations has at least one entry, so it permits something. -/
theorem reaches_of_parseDestinations (parsed : parseDestinations text = .ok policy) :
    ∃ addressClass, policy.permits addressClass = true := by
  simp only [parseDestinations] at parsed
  split at parsed
  · cases parsed
  · rcases List.eq_nil_or_concat (text.splitOn ((',' : Char) : UInt8)) with none | ⟨init, last, shape⟩
    · exact absurd none (List.splitOn_ne_nil _ _)
    · rw [shape, List.concat_eq_append, List.foldlM_append] at parsed
      rcases exists_of_bind_ok parsed with ⟨before, _, admits⟩
      simp only [List.foldlM_cons, List.foldlM_nil] at admits
      rcases exists_of_bind_ok admits with ⟨next, admits, same⟩
      cases same
      exact reaches_of_admitDestination admits

/-- What a parser took is taken again as it is spelled, and for the same value. -/
theorem parse_spell (parsed : name.parse text = some setting) :
    name.parse setting.spell = some setting := by
  cases name with
  | destinations =>
    simp only [Variable.parse, destinationsSetting] at parsed ⊢
    split at parsed
    · cases parsed
    · rename_i policy read
      cases parsed
      have again := parseDestinations_destinationsString policy
        (reaches_of_parseDestinations read)
      simp only [Setting.spell, again]
  | persistentDirectory =>
    simp only [Variable.parse] at parsed ⊢
    split at parsed
    · cases parsed
    · rename_i present
      cases parsed
      exact if_neg present
  | connectTimeout | readTimeout | totalTimeout | maxRetries | maxRedirects | blockSize
  | cacheBudget | coalesceGap | maxRequestBytes | persistentBudget =>
    exact countSetting_spell parsed

/-! ### What a context admits -/

def assignment (piece : Bytes) : Option (Bytes × Bytes) :=
  (splitFirst '=' (trim piece)).map fun halves => (trim halves.1, trim halves.2)

def assignments (text : Bytes) : List (Bytes × Bytes) :=
  (text.splitOn ((';' : Char) : UInt8)).filterMap assignment

/-- The value of the last entry for a name. -/
def lastValue (text name : Bytes) : Option Bytes := (assignments text).reverse.lookup name

/-- What a context string sets a variable to, if it may set it and its last value parses. -/
def admitted (text : Bytes) (name : Variable) : Option Setting :=
  if name ∈ contextVariables then (lastValue text name.name).bind name.parse else none

theorem contains_configured_of_context {name : Bytes} (known : contains contextVariables name = true) :
    contains configuredVariables name = true := by
  rcases List.any_eq_true.mp known with ⟨candidate, candidateMem, same⟩
  have included : ∀ candidate ∈ contextVariables, candidate ∈ configuredVariables := by decide
  exact List.any_eq_true.mpr ⟨candidate, included candidate candidateMem, same⟩

theorem getElem?_readEntry (state : Reported StringMap) (piece name : Bytes) :
    (readEntry state piece).1[name]? =
      if contains contextVariables name then
        ((assignment piece).toList.lookup name).or state.1[name]?
      else state.1[name]? := by
  simp only [readEntry, assignment]
  split
  · rename_i empty
    simp [empty, splitFirst]
  · split
    · rename_i unsplit
      simp [unsplit]
    · rename_i before after found
      simp only [found, Option.map_some, Option.toList_some]
      by_cases known : contains contextVariables (trim before) = true
      · rw [contains_configured_of_context known, known]
        simp only [Bool.not_true, Bool.false_eq_true, if_false, Std.ExtTreeMap.getElem?_insert,
          Std.LawfulEqCmp.compare_eq_iff_eq]
        by_cases same : trim before = name
        · subst same
          simp [known]
        · have other : (name == trim before) = false := by simpa using Ne.symm same
          simp [List.lookup_cons, other, same]
      · have unchanged : ∀ value, (if contains contextVariables name = true then
            ([(trim before, value)].lookup name).or state.1[name]? else state.1[name]?) =
              state.1[name]? := by
          intro value
          by_cases same : name = trim before
          · rw [same, if_neg known]
          · have other : (name == trim before) = false := by simpa using same
            simp [List.lookup_cons, other]
        rw [unchanged]
        split
        · rfl
        · simp [known]

theorem getElem?_foldl_readEntry (pieces : List Bytes) (state : Reported StringMap) (name : Bytes) :
    (pieces.foldl readEntry state).1[name]? =
      if contains contextVariables name then
        ((pieces.filterMap assignment).reverse.lookup name).or state.1[name]?
      else state.1[name]? := by
  induction pieces generalizing state with
  | nil => simp
  | cons piece rest ih =>
    rw [List.foldl_cons, ih, getElem?_readEntry]
    split
    · rw [List.filterMap_cons]
      cases assignment piece with
      | none => simp
      | some entry => simp [List.lookup_append, Option.or_assoc]
    · rfl

theorem getElem?_judge (state : Reported StringMap) (problem : ConfigurationProblem)
    (name : Bytes) :
    (judge state problem).1[name]? =
      if problem.name == name && !problem.adjusted then none else state.1[name]? := by
  simp only [judge, Std.ExtTreeMap.contains_eq_isSome_getElem?]
  by_cases refused : (problem.name == name && !problem.adjusted) = true
  · rw [if_pos refused]
    simp only [Bool.and_eq_true, beq_iff_eq, Bool.not_eq_true'] at refused
    rcases refused with ⟨rfl, notAdjusted⟩
    cases held : state.1[problem.name]? <;> simp [held, notAdjusted]
  · rw [if_neg refused]
    split
    · rfl
    · simp only
      split
      · rename_i notAdjusted
        rw [Std.ExtTreeMap.getElem?_erase, if_neg]
        intro same
        rw [Std.LawfulEqCmp.compare_eq_iff_eq.mp same, notAdjusted] at refused
        simp at refused
      · rfl

theorem getElem?_foldl_judge (problems : List ConfigurationProblem) (state : Reported StringMap)
    (name : Bytes) :
    (problems.foldl judge state).1[name]? =
      if refuses problems name then none else state.1[name]? := by
  induction problems generalizing state with
  | nil => simp [refuses]
  | cons problem rest ih =>
    rw [List.foldl_cons, ih, getElem?_judge, refuses, refuses, List.any_cons]
    cases (problem.name == name && !problem.adjusted) <;> simp

theorem contains_contextVariables (name : Variable) :
    contains contextVariables name.name = decide (name ∈ contextVariables) := by
  rw [Bool.eq_iff_iff]
  simp [contains]

theorem respell_eq (applied : ResolverConfiguration) (settable : name ∈ contextVariables)
    (value : Bytes) :
    respell applied name.name value = (applied.setting name).spell := by
  simp only [contextVariables, List.mem_cons, List.not_mem_nil, or_false] at settable
  rcases settable with rfl | rfl | rfl | rfl | rfl | rfl | rfl | rfl <;> simp [respell] <;> rfl

/-- A context keeps what it admits, as it is spelled, and nothing else. -/
theorem getElem?_overridesFrom (text : Bytes) (base : EnvironmentLookup) (name : Variable) :
    (overridesFrom text base).1[name.name]? = (admitted text name).map Setting.spell := by
  have entries := getElem?_foldl_readEntry (text.splitOn ((';' : Char) : UInt8)) (∅, []) name.name
  simp only [overridesFrom, Std.ExtTreeMap.getElem?_map, getElem?_foldl_judge,
    refuses_configurationFrom]
  generalize List.foldl readEntry (∅, []) (text.splitOn ((';' : Char) : UInt8)) = read
    at entries ⊢
  rw [contains_contextVariables] at entries
  by_cases settable : name ∈ contextVariables
  · have last : read.1[name.name]? = lastValue text name.name := by
      rw [entries, if_pos (by simpa using settable)]
      simp [lastValue, assignments]
    rw [admitted, if_pos settable, last]
    cases found : lastValue text name.name with
    | none => simp
    | some value =>
      have layeredValue : layered read.1 base name.name = some value := by
        simp only [layered, last, found]
      rw [layeredValue]
      cases parsed : name.parse value with
      | none => simp [parsed]
      | some setting =>
        have applied : (configurationFrom (layered read.1 base)).1.setting name = setting := by
          rw [setting_configurationFrom, layeredValue]
          simp [parsed]
        simp [parsed, respell_eq _ settable, applied]
  · have absent : read.1[name.name]? = none := by
      rw [entries, if_neg (by simpa using settable)]
      simp
    simp [admitted, settable, absent]

theorem getElem?_overridesFrom_eq_none (text : Bytes) (base : EnvironmentLookup) {name : Bytes}
    (unknown : ∀ candidate : Variable, candidate.name ≠ name) :
    (overridesFrom text base).1[name]? = none := by
  have entries := getElem?_foldl_readEntry (text.splitOn ((';' : Char) : UInt8)) (∅, []) name
  have unsettable : contains contextVariables name = false := by
    simp [contains, unknown]
  simp only [overridesFrom, Std.ExtTreeMap.getElem?_map, getElem?_foldl_judge]
  rw [entries, unsettable]
  simp

theorem exists_parse_of_admitted (admits : admitted text name = some setting) :
    name ∈ contextVariables ∧ ∃ value, name.parse value = some setting := by
  simp only [admitted] at admits
  split at admits
  · rename_i settable
    rcases Option.bind_eq_some_iff.mp admits with ⟨value, _, parsed⟩
    exact ⟨settable, value, parsed⟩
  · cases admits

theorem parse_overridesFrom (text : Bytes) (base : EnvironmentLookup) (name : Variable) :
    ((overridesFrom text base).1[name.name]?).bind name.parse = admitted text name := by
  rw [getElem?_overridesFrom]
  cases admits : admitted text name with
  | none => rfl
  | some setting =>
    rcases exists_parse_of_admitted admits with ⟨_, value, parsed⟩
    exact parse_spell parsed

/-- Two contexts are equal exactly where they admit the same values. -/
theorem overridesFrom_eq_iff (text other : Bytes) (base otherBase : EnvironmentLookup) :
    (overridesFrom text base).1 = (overridesFrom other otherBase).1 ↔
      admitted text = admitted other := by
  constructor
  · intro same
    funext name
    rw [← parse_overridesFrom text base, ← parse_overridesFrom other otherBase, same]
  · intro same
    apply Std.ExtTreeMap.ext_getElem?
    intro name
    by_cases known : ∃ candidate : Variable, candidate.name = name
    · rcases known with ⟨candidate, rfl⟩
      rw [getElem?_overridesFrom, getElem?_overridesFrom, same]
    · push Not at known
      rw [getElem?_overridesFrom_eq_none _ _ known, getElem?_overridesFrom_eq_none _ _ known]

/-- A context sets what it admits and leaves the rest to the environment. -/
theorem setting_layered (text : Bytes) (base : EnvironmentLookup) (name : Variable) :
    (configurationFrom (layered (overridesFrom text base).1 base)).1.setting name =
      (admitted text name).getD ((configurationFrom base).1.setting name) := by
  rw [setting_configurationFrom, setting_configurationFrom, ← parse_overridesFrom text base,
    layered]
  have kept := getElem?_overridesFrom text base name
  cases admits : admitted text name with
  | none => simp [kept, admits]
  | some setting =>
    rcases exists_parse_of_admitted admits with ⟨_, value, parsed⟩
    simp [kept, admits, parse_spell parsed]

/-! ### The canonical spelling -/

/-- A byte that neither separates nor pads the entries of a context string. -/
def isInert (byte : UInt8) : Bool := !isBlank byte && byte != ';'

theorem trim_of_inert (inert : ∀ byte ∈ text, isInert byte = true) :
    trim text = text := by
  have kept : ∀ text : Bytes, (∀ byte ∈ text, isInert byte = true) →
      text.dropWhile isBlank = text := by
    intro text inert
    cases text with
    | nil => rfl
    | cons byte rest =>
      have first := inert byte (by simp)
      simp only [isInert, Bool.and_eq_true, Bool.not_eq_true'] at first
      simp [first.1]
  simp only [trim]
  rw [kept text inert, kept text.reverse (by simpa using inert), List.reverse_reverse]

theorem inert_name (name : Variable) :
    (∀ byte ∈ name.name, isInert byte = true) ∧ (('=' : Char) : UInt8) ∉ name.name := by
  have checked : name.name.all isInert = true ∧ (('=' : Char) : UInt8) ∉ name.name := by
    cases name <;> decide
  exact ⟨List.all_eq_true.mp checked.1, checked.2⟩

theorem inert_destinationsString (policy : DestinationPolicy) :
    ∀ byte ∈ destinationsString policy, isInert byte = true := by
  rw [← List.all_eq_true]
  rcases policy with ⟨publicAddresses, privateNetworks, loopback, linkLocal, metadata⟩
  revert publicAddresses privateNetworks loopback linkLocal metadata
  decide +kernel

theorem isInert_of_isDigit {byte : UInt8} (digits : isDigit byte = true) :
    isInert byte = true := by
  simp only [isInert, isBlank, Bool.and_eq_true, Bool.not_eq_true', Bool.or_eq_false_iff,
    beq_eq_false_iff_ne, bne_iff_ne]
  refine ⟨⟨⟨⟨?_, ?_⟩, ?_⟩, ?_⟩, ?_⟩ <;>
    · rintro rfl
      cases digits

theorem inert_spell_of_countSetting
    (parsed : countSetting min max text = some setting) :
    ∀ byte ∈ setting.spell, isInert byte = true := by
  simp only [countSetting] at parsed
  split at parsed
  · cases parsed
  · rename_i value _
    cases parsed
    exact fun byte byteMem => isInert_of_isDigit (isDigit_of_mem_decimal value byte byteMem)

theorem inert_spell (settable : name ∈ contextVariables)
    (parsed : name.parse text = some setting) :
    ∀ byte ∈ setting.spell, isInert byte = true := by
  cases name with
  | destinations =>
    simp only [Variable.parse, destinationsSetting] at parsed
    split at parsed
    · cases parsed
    · cases parsed
      exact inert_destinationsString _
  | persistentDirectory => simp [contextVariables] at settable
  | connectTimeout | readTimeout | totalTimeout | maxRetries | maxRedirects | blockSize
  | cacheBudget | coalesceGap | maxRequestBytes | persistentBudget =>
    exact inert_spell_of_countSetting parsed

/-- Items behind the first one are each written behind a separator. -/
theorem foldl_appendItem {separator : UInt8} (items : List Bytes) (present : text ≠ []) :
    items.foldl (appendItem separator) text = text ++ render separator items := by
  induction items generalizing text with
  | nil => simp
  | cons item rest ih =>
    rw [List.foldl_cons, appendItem, if_neg present, ih (by simp [present])]
    simp

theorem splitOn_foldl_appendItem {separator : UInt8} {items : List Bytes} (written : items ≠ [])
    (present : ∀ item ∈ items, item ≠ []) (plain : ∀ item ∈ items, separator ∉ item) :
    (items.foldl (appendItem separator) []).splitOn separator = items := by
  cases items with
  | nil => exact absurd rfl written
  | cons first rest =>
    rw [List.foldl_cons, appendItem, if_pos rfl, List.nil_append,
      foldl_appendItem rest (present first (by simp))]
    exact splitOn_tail_render written plain

/-- An entry whose name and value are read again as they are written. -/
structure IsInertEntry (entry : Bytes × Bytes) : Prop where
  name : ∀ byte ∈ entry.1, isInert byte = true
  equals : (('=' : Char) : UInt8) ∉ entry.1
  value : ∀ byte ∈ entry.2, isInert byte = true

namespace IsInertEntry

variable {entry : Bytes × Bytes}

theorem written (inert : IsInertEntry entry) :
    ∀ byte ∈ entry.1 ++ bytes "=" ++ entry.2, isInert byte = true := by
  intro byte byteMem
  simp only [List.mem_append] at byteMem
  rcases byteMem with (inName | inEquals) | inValue
  · exact inert.name byte inName
  · rw [List.mem_singleton.mp inEquals]
    decide
  · exact inert.value byte inValue

theorem assignment_eq (inert : IsInertEntry entry) :
    assignment (entry.1 ++ bytes "=" ++ entry.2) = some entry := by
  have found := splitFirst_append entry.2 inert.equals
  have shape : entry.1 ++ bytes "=" ++ entry.2 =
      entry.1 ++ (('=' : Char) : UInt8) :: entry.2 := by
    simp [bytes]
  rw [assignment, trim_of_inert inert.written, shape, found, Option.map_some,
    trim_of_inert inert.name, trim_of_inert inert.value]

end IsInertEntry

theorem assignments_written {entries : List (Bytes × Bytes)}
    (inert : ∀ entry ∈ entries, IsInertEntry entry) :
    assignments ((entries.map fun entry => entry.1 ++ bytes "=" ++ entry.2).foldl
      (appendItem ';') []) = entries := by
  by_cases empty : entries = []
  · subst empty
    rfl
  · rw [assignments, splitOn_foldl_appendItem (by simpa using empty), List.filterMap_map]
    · rw [List.filterMap_congr (g := some), List.filterMap_some]
      intro entry entryMem
      exact (inert entry entryMem).assignment_eq
    · intro item itemMem
      rcases List.mem_map.mp itemMem with ⟨entry, _, rfl⟩
      simp [bytes]
    · intro item itemMem separator
      rcases List.mem_map.mp itemMem with ⟨entry, entryMem, rfl⟩
      have plain := (inert entry entryMem).written _ separator
      revert plain
      decide

theorem lookup_of_mem {entries : List (Bytes × Bytes)}
    (distinct : entries.Pairwise fun first second => first.1 ≠ second.1) {name value : Bytes}
    (entryMem : (name, value) ∈ entries) : entries.lookup name = some value := by
  rcases List.mem_iff_append.mp entryMem with ⟨before, after, rfl⟩
  apply List.lookup_eq_some_iff.mpr
  refine ⟨before, after, rfl, ?_⟩
  intro earlier earlierMem
  have apart := (List.pairwise_append.mp distinct).2.2 earlier earlierMem _ List.mem_cons_self
  simpa using Ne.symm apart

/-- Looking a name up in the entries of a map, from the back, finds what the map has for it. -/
theorem lookup_reverse_toList (values : StringMap) (name : Bytes) :
    values.toList.reverse.lookup name = values[name]? := by
  have distinct : values.toList.reverse.Pairwise fun first second => first.1 ≠ second.1 := by
    rw [List.pairwise_reverse]
    refine values.distinct_keys_toList.imp ?_
    intro first second apart same
    exact apart (Std.LawfulEqCmp.compare_eq_iff_eq.mpr same.symm)
  cases held : values[name]? with
  | none =>
    apply List.lookup_eq_none_iff.mpr
    intro entry entryMem
    rw [List.mem_reverse] at entryMem
    have present : values[entry.1]? = some entry.2 :=
      Std.ExtTreeMap.mem_toList_iff_getElem?_eq_some.mp entryMem
    rw [bne_iff_ne]
    rintro rfl
    rw [held] at present
    cases present
  | some value =>
    refine lookup_of_mem distinct ?_
    rw [List.mem_reverse]
    exact Std.ExtTreeMap.mem_toList_iff_getElem?_eq_some.mpr held

theorem isInertEntry_of_overridesFrom (text : Bytes) (base : EnvironmentLookup) :
    ∀ entry ∈ (overridesFrom text base).1.toList, IsInertEntry entry := by
  intro entry entryMem
  have held : (overridesFrom text base).1[entry.1]? = some entry.2 :=
    Std.ExtTreeMap.mem_toList_iff_getElem?_eq_some.mp entryMem
  by_cases known : ∃ candidate : Variable, candidate.name = entry.1
  · rcases known with ⟨candidate, same⟩
    rw [← same, getElem?_overridesFrom] at held
    rcases Option.map_eq_some_iff.mp held with ⟨setting, admits, spelled⟩
    rcases exists_parse_of_admitted admits with ⟨settable, value, parsed⟩
    rcases inert_name candidate with ⟨inert, absent⟩
    rw [same] at inert absent
    have plain := inert_spell settable parsed
    rw [spelled] at plain
    exact ⟨inert, absent, plain⟩
  · push Not at known
    rw [getElem?_overridesFrom_eq_none text base known] at held
    cases held

theorem admitted_canonicalContextString (text : Bytes) (base : EnvironmentLookup) :
    admitted (canonicalContextString (overridesFrom text base).1) = admitted text := by
  funext name
  rw [admitted, lastValue, canonicalContextString,
    assignments_written (isInertEntry_of_overridesFrom text base), lookup_reverse_toList,
    parse_overridesFrom]
  split
  · rfl
  · rename_i unsettable
    rw [admitted, if_neg unsettable]

/--
A context string sets each variable to its last value where the variable is a context's
to set and that value parses, and leaves it to the environment otherwise.  Its canonical
spelling gives the same context, and so does every string that admits the same values.
-/
theorem overridesFrom_precedence (text : Bytes) (base : EnvironmentLookup) :
    (∀ name, (configurationFrom (layered (overridesFrom text base).1 base)).1.setting name =
        (admitted text name).getD ((configurationFrom base).1.setting name)) ∧
      (overridesFrom (canonicalContextString (overridesFrom text base).1) base).1 =
        (overridesFrom text base).1 ∧
      ∀ other otherBase, (overridesFrom other otherBase).1 = (overridesFrom text base).1 ↔
        admitted other = admitted text := by
  refine ⟨setting_layered text base, ?_, fun other otherBase => overridesFrom_eq_iff _ _ _ _⟩
  rw [overridesFrom_eq_iff]
  exact admitted_canonicalContextString text base

end UsdAsset.Resolver
