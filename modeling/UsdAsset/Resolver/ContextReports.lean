import UsdAsset.Resolver.Precedence

/-!
# What a context is warned about

The values of a context are judged all at once, with those that are refused still among
them, and are applied without those.  A warning about a variable is what is applied then,
except for one case: where the ceiling of the context is refused, its gap was judged under
the default ceiling and is applied under that of the environment.
-/

namespace UsdAsset.Resolver

open ByteString Http Cache

/-! ### Reports -/

/-- A variable is reported as used after an adjustment, for a reason. -/
def Reports (problems : List ConfigurationProblem) (name : Variable) (reason : Bytes) : Prop :=
  ∃ problem ∈ problems,
    problem.name = name.name ∧ problem.adjusted = true ∧ problem.reason = reason

def cappedAt (gap : ℕ) : Bytes :=
  bytes "capped at " ++ decimal gap ++
    bytes ", the widest gap that can fit under USD_HTTP_RESOLVER_MAX_REQUEST_BYTES"

def raisedTo (ceiling : ℕ) : Bytes :=
  bytes "raised to " ++ decimal ceiling ++
    bytes ", one block: a merged request that cannot carry a block " ++
    bytes "cannot carry the block it was merging"

section Reports

variable {problems first second : List ConfigurationProblem} {name other : Variable}
  {reason otherReason : Bytes}

@[simp]
theorem reports_append :
    Reports (first ++ second) name reason ↔
      Reports first name reason ∨ Reports second name reason := by
  simp only [Reports, List.mem_append, or_and_right, exists_or]

theorem not_reports_of_refusals (refusals : ∀ problem ∈ problems, problem.adjusted = false) :
    ¬Reports problems name reason := by
  rintro ⟨problem, problemMem, _, adjusted, _⟩
  rw [refusals problem problemMem] at adjusted
  cases adjusted

@[simp]
theorem reports_adjustment {value normalized : ℕ} :
    Reports (adjustment name value normalized otherReason) other reason ↔
      name = other ∧ normalized ≠ value ∧ otherReason = reason := by
  simp only [adjustment]
  split
  · rename_i changed
    simp [Reports, adjusted, changed]
  · rename_i same
    simp [Reports, same]

end Reports

theorem cappedAt_inj {gap other : ℕ} : cappedAt gap = cappedAt other ↔ gap = other := by
  constructor
  · intro same
    exact decimal_injective (List.append_cancel_left (List.append_cancel_right same))
  · rintro rfl
    rfl

theorem raisedTo_inj {ceiling other : ℕ} : raisedTo ceiling = raisedTo other ↔ ceiling = other := by
  constructor
  · intro same
    exact decimal_injective (List.append_cancel_left (List.append_cancel_right
      (List.append_cancel_right same)))
  · rintro rfl
    rfl

/-! ### The entries of a context -/

/-- The entries of a context string before their values are judged. -/
def entriesOf (text : Bytes) : Reported StringMap :=
  (text.splitOn ((';' : Char) : UInt8)).foldl readEntry (∅, [])

theorem getElem?_entriesOf (text : Bytes) (name : Variable) :
    (entriesOf text).1[name.name]? =
      if name ∈ contextVariables then lastValue text name.name else none := by
  rw [entriesOf, getElem?_foldl_readEntry, contains_contextVariables]
  simp [lastValue, assignments]

theorem overridesFrom_problems (text : Bytes) (base : EnvironmentLookup) :
    (overridesFrom text base).2 =
      ((configurationFrom (layered (entriesOf text).1 base)).2.foldl judge (entriesOf text)).2 :=
  rfl

def setTwice : Bytes :=
  bytes "set more than once in one context; only the " ++ bytes "last value is considered"

/-- An entry is read with no refusal of a context variable, and adjusted if it is given twice. -/
structure IsEntryProblem (problem : ConfigurationProblem) : Prop where
  foreign : problem.adjusted = false → ∀ name ∈ contextVariables, problem.name ≠ name.name
  twice : problem.adjusted = true → problem.reason = setTwice

variable {state : Reported StringMap} {name : Variable} {reason : Bytes}

theorem isEntryProblem_readEntry (piece : Bytes)
    (before : ∀ problem ∈ state.2, IsEntryProblem problem) :
    ∀ problem ∈ (readEntry state piece).2, IsEntryProblem problem := by
  have foreign : ∀ {name value reason : Bytes}, contains contextVariables name = false →
      IsEntryProblem (refusal name value reason) := by
    intro name value reason unknown
    refine ⟨fun _ candidate candidateMem same => ?_, by rintro ⟨⟩⟩
    rw [show (refusal name value reason).name = name from rfl] at same
    rw [same, contains_contextVariables, decide_eq_false_iff_not] at unknown
    exact unknown candidateMem
  have appended : ∀ {problem : ConfigurationProblem}, IsEntryProblem problem →
      ∀ other ∈ state.2 ++ [problem], IsEntryProblem other := by
    intro problem isEntry other otherMem
    rcases List.mem_append.mp otherMem with old | new
    · exact before other old
    · rw [List.mem_singleton.mp new]
      exact isEntry
  simp only [readEntry]
  split
  · exact before
  · split
    · exact appended (foreign (by decide +kernel))
    · rename_i name value _
      split
      · rename_i unknown
        refine appended (foreign ?_)
        by_contra known
        rw [contains_configured_of_context (by simpa using known)] at unknown
        cases unknown
      · split
        · rename_i unsettable
          exact appended (foreign (by simpa using unsettable))
        · split
          · exact appended ⟨by simp, fun _ => rfl⟩
          · rw [List.append_nil]
            exact before

theorem isEntryProblem_entriesOf (text : Bytes) :
    ∀ problem ∈ (entriesOf text).2, IsEntryProblem problem := by
  have run : ∀ (pieces : List Bytes) (state : Reported StringMap),
      (∀ problem ∈ state.2, IsEntryProblem problem) →
        ∀ problem ∈ (pieces.foldl readEntry state).2, IsEntryProblem problem := by
    intro pieces
    induction pieces with
    | nil => exact fun _ before => before
    | cons piece rest ih => exact fun state before => ih _ (isEntryProblem_readEntry piece before)
  exact run _ _ nofun

theorem refuses_entriesOf (text : Bytes) (settable : name ∈ contextVariables) :
    refuses (entriesOf text).2 name.name = false := by
  rw [refuses, List.any_eq_false]
  intro problem problemMem refused
  simp only [Bool.and_eq_true, beq_iff_eq, Bool.not_eq_true'] at refused
  exact (isEntryProblem_entriesOf text problem problemMem).foreign refused.2 name settable refused.1

theorem reason_of_reports_entriesOf {text : Bytes}
    (reports : Reports (entriesOf text).2 name reason) : reason = setTwice := by
  rcases reports with ⟨problem, problemMem, _, adjusted, rfl⟩
  exact (isEntryProblem_entriesOf text problem problemMem).twice adjusted

/-! ### Judging -/

theorem contains_judge {problem : ConfigurationProblem} {name : Bytes}
    (other : (problem.name == name && !problem.adjusted) = false) :
    (judge state problem).1.contains name = state.1.contains name := by
  rw [Std.ExtTreeMap.contains_eq_isSome_getElem?, getElem?_judge, other,
    Std.ExtTreeMap.contains_eq_isSome_getElem?]
  rfl

theorem refuses_judge (state : Reported StringMap) (problem : ConfigurationProblem) (name : Bytes) :
    refuses (judge state problem).2 name =
      (refuses state.2 name ||
        (state.1.contains name && (problem.name == name && !problem.adjusted))) := by
  simp only [judge]
  split
  · rename_i absent
    by_cases same : problem.name = name
    · rw [same] at absent
      simp only [Bool.not_eq_true'] at absent
      simp [absent]
    · simp [same]
  · rename_i present
    rw [refuses_append]
    congr 1
    by_cases same : problem.name = name
    · rw [same] at present
      simp only [Bool.not_eq_true', Bool.not_eq_false] at present
      simp [refuses, present, same]
    · simp [refuses, same]

theorem refuses_foldl_judge (problems : List ConfigurationProblem) (state : Reported StringMap)
    (name : Bytes) :
    refuses (problems.foldl judge state).2 name =
      (refuses state.2 name || (state.1.contains name && refuses problems name)) := by
  induction problems generalizing state with
  | nil => simp [refuses]
  | cons problem rest ih =>
    rw [List.foldl_cons, ih, refuses_judge]
    have split : refuses (problem :: rest) name =
        ((problem.name == name && !problem.adjusted) || refuses rest name) := rfl
    rw [split]
    cases refused : (problem.name == name && !problem.adjusted) with
    | false =>
      rw [contains_judge refused]
      simp
    | true =>
      have gone : (judge state problem).1.contains name = false := by
        rw [Std.ExtTreeMap.contains_eq_isSome_getElem?, getElem?_judge, refused]
        rfl
      rw [gone]
      simp

theorem reports_judge {problem : ConfigurationProblem} :
    Reports (judge state problem).2 name reason ↔
      Reports state.2 name reason ∨
        (state.1.contains name.name = true ∧ Reports [problem] name reason) := by
  simp only [judge]
  split
  · rename_i absent
    rw [Bool.not_eq_true'] at absent
    refine ⟨Or.inl, ?_⟩
    rintro (old | ⟨present, other, otherMem, same, _⟩)
    · exact old
    · rw [List.mem_singleton.mp otherMem] at same
      rw [same, present] at absent
      cases absent
  · rename_i present
    rw [Bool.not_eq_true', Bool.not_eq_false] at present
    rw [reports_append]
    refine or_congr_right ?_
    simp only [Reports, List.mem_singleton, exists_eq_left]
    refine ⟨fun reported => ⟨?_, reported⟩, And.right⟩
    rw [← reported.1]
    exact present

theorem reports_foldl_refusals {problems : List ConfigurationProblem}
    (refusals : ∀ problem ∈ problems, problem.adjusted = false) :
    Reports (problems.foldl judge state).2 name reason ↔ Reports state.2 name reason := by
  induction problems generalizing state with
  | nil => rfl
  | cons problem rest ih =>
    rcases List.forall_mem_cons.mp refusals with ⟨first, others⟩
    have none : ¬Reports [problem] name reason :=
      not_reports_of_refusals (by simpa using first)
    rw [List.foldl_cons, ih others, reports_judge]
    simp [none]

/-- An adjustment is reported for a variable that nothing refuses if the context has it. -/
theorem reports_foldl_judge {problems : List ConfigurationProblem}
    (kept : refuses problems name.name = false) :
    Reports (problems.foldl judge state).2 name reason ↔
      Reports state.2 name reason ∨
        (state.1.contains name.name = true ∧ Reports problems name reason) := by
  induction problems generalizing state with
  | nil => simp [Reports]
  | cons problem rest ih =>
    have split : (problem.name == name.name && !problem.adjusted) = false ∧
        refuses rest name.name = false := Bool.or_eq_false_iff.mp kept
    have joined : Reports (problem :: rest) name reason ↔
        Reports [problem] name reason ∨ Reports rest name reason :=
      @reports_append [problem] rest name reason
    rw [List.foldl_cons, ih split.2, reports_judge, contains_judge split.1, joined]
    tauto

/-! ### The problems of a configuration -/

theorem refusals_readCount {α : Type} [NatCast α] (lookup : EnvironmentLookup) (name : Variable)
    (min max : ℕ) (target : α) :
    ∀ problem ∈ (readCount lookup name min max target).2, problem.adjusted = false := by
  simp only [readCount]
  split
  · simp
  · split
    · simp
    · simp

theorem refusals_readDestinations (lookup : EnvironmentLookup) (target : DestinationPolicy) :
    ∀ problem ∈ (readDestinations lookup target).2, problem.adjusted = false := by
  simp only [readDestinations]
  split
  · simp
  · split
    · simp
    · simp

/--
The refusals come first, and the adjustments of the gap and of the ceiling compare what is
read with what it is normalized to.
-/
structure Sorted (lookup : EnvironmentLookup) (front rest : List ConfigurationProblem) : Prop where
  whole : (configurationFrom lookup).2 = front ++ rest
  refusals : ∀ problem ∈ front, problem.adjusted = false
  kept : ∀ name ∈ contextVariables, refuses rest name.name = false
  capped : ∀ reason, Reports rest .coalesceGap reason ↔
    (configurationFrom lookup).1.cache.normalized.coalesceGapBlocks ≠
        (configurationFrom lookup).1.cache.coalesceGapBlocks ∧
      cappedAt (configurationFrom lookup).1.cache.normalized.coalesceGapBlocks = reason
  raised : ∀ reason, Reports rest .maxRequestBytes reason ↔
    (configurationFrom lookup).1.cache.normalized.maxRequestBytes ≠
        (configurationFrom lookup).1.cache.maxRequestBytes ∧
      raisedTo (configurationFrom lookup).1.cache.normalized.maxRequestBytes = reason

/-- The adjustments of a cache policy; what is said about its other fields is left open. -/
def adjustments (options : CacheOptions) (blockReason budgetReason : Bytes) :
    List ConfigurationProblem :=
  adjustment .blockSize options.blockSize options.normalized.blockSize blockReason ++
    (adjustment .coalesceGap options.coalesceGapBlocks options.normalized.coalesceGapBlocks
        (cappedAt options.normalized.coalesceGapBlocks) ++
      (adjustment .cacheBudget options.budgetBytes options.normalized.budgetBytes budgetReason ++
        adjustment .maxRequestBytes options.maxRequestBytes options.normalized.maxRequestBytes
          (raisedTo options.normalized.maxRequestBytes)))

/-- The refusals of a cache policy. -/
def cacheRefusals (lookup : EnvironmentLookup) : List ConfigurationProblem :=
  (readBytesInto lookup .blockSize minBlockSize maxBlockSize ({} : CacheOptions).blockSize).2 ++
    (readBytesInto lookup .cacheBudget minBlockSize (64 * 1024 * 1024 * 1024)
      ({} : CacheOptions).budgetBytes).2 ++
    (readBytesInto lookup .coalesceGap 0 1024 ({} : CacheOptions).coalesceGapBlocks).2 ++
    (readBytesInto lookup .maxRequestBytes minBlockSize (4 * 1024 * 1024 * 1024)
      ({} : CacheOptions).maxRequestBytes).2

theorem refusals_cacheRefusals (lookup : EnvironmentLookup) :
    ∀ problem ∈ cacheRefusals lookup, problem.adjusted = false := by
  simp only [cacheRefusals, List.forall_mem_append]
  exact ⟨⟨⟨refusals_readCount _ _ _ _ _, refusals_readCount _ _ _ _ _⟩,
    refusals_readCount _ _ _ _ _⟩, refusals_readCount _ _ _ _ _⟩

theorem exists_adjustments (lookup : EnvironmentLookup) :
    ∃ blockReason budgetReason, (cacheOptionsFrom lookup).2 =
      cacheRefusals lookup ++ adjustments (cacheOptionsFrom lookup).1 blockReason budgetReason := by
  simp only [adjustments, ← List.append_assoc]
  exact ⟨_, _, rfl⟩

theorem exists_sorted (lookup : EnvironmentLookup) : ∃ front rest, Sorted lookup front rest := by
  rcases exists_adjustments lookup with ⟨blockReason, budgetReason, shape⟩
  have transport : ∀ problem ∈ (optionsFrom lookup).2, problem.adjusted = false := by
    simp only [optionsFrom, List.forall_mem_append]
    exact ⟨⟨⟨⟨⟨refusals_readCount _ _ _ _ _, refusals_readCount _ _ _ _ _⟩,
      refusals_readCount _ _ _ _ _⟩, refusals_readCount _ _ _ _ _⟩, refusals_readCount _ _ _ _ _⟩,
      refusals_readDestinations _ _⟩
  have persistence : ∀ (name : Variable) (reason : Bytes),
      ¬Reports (persistenceOptionsFrom lookup).2 name reason := by
    intro name reason
    refine not_reports_of_refusals ?_
    simp only [persistenceOptionsFrom, List.forall_mem_append]
    refine ⟨?_, refusals_readCount _ _ _ _ _⟩
    simp only [readDirectory]
    split
    · simp
    · simp
    · simp
  refine ⟨(optionsFrom lookup).2 ++ cacheRefusals lookup,
    adjustments (cacheOptionsFrom lookup).1 blockReason budgetReason ++
      (persistenceOptionsFrom lookup).2, ?_, ?_, ?_, ?_, ?_⟩
  · simp only [configurationFrom, shape, List.append_assoc]
  · exact List.forall_mem_append.mpr ⟨transport, refusals_cacheRefusals lookup⟩
  · intro name settable
    simp only [adjustments, refuses_append, refuses_adjustment, persistenceOptionsFrom,
      refuses_readDirectory, readBytesInto, refuses_readCount, Bool.false_or]
    simp only [contextVariables, List.mem_cons, List.not_mem_nil, or_false] at settable
    rcases settable with rfl | rfl | rfl | rfl | rfl | rfl | rfl | rfl <;> rfl
  · intro reason
    simp [adjustments, persistence]
    rfl
  · intro reason
    simp [adjustments, persistence]
    rfl

/-! ### What is reported -/

section Context

variable {text : Bytes} {base : EnvironmentLookup} {name : Variable}

/-- The last value of a variable is one its parser does not take. -/
def LastValueRefused (text : Bytes) (name : Variable) : Prop :=
  ∃ value, lastValue text name.name = some value ∧ name.parse value = none

section

variable (settable : name ∈ contextVariables)

include settable

theorem refuses_layered : ((entriesOf text).1.contains name.name &&
        refuses (configurationFrom (layered (entriesOf text).1 base)).2 name.name) = true ↔
      LastValueRefused text name := by
  have held := getElem?_entriesOf text name
  rw [if_pos settable] at held
  rw [refuses_configurationFrom, layered, Std.ExtTreeMap.contains_eq_isSome_getElem?, held]
  cases found : lastValue text name.name with
  | none => simp [LastValueRefused, found]
  | some value => simp [LastValueRefused, found]

theorem refuses_overridesFrom_iff :
    refuses (overridesFrom text base).2 name.name = true ↔ LastValueRefused text name := by
  rw [overridesFrom_problems, refuses_foldl_judge, refuses_entriesOf text settable, Bool.false_or]
  exact refuses_layered settable

theorem admitted_isSome_iff : (admitted text name).isSome = true ↔
      (lastValue text name.name).isSome = true ∧ ¬LastValueRefused text name := by
  rw [admitted, if_pos settable, LastValueRefused]
  cases lastValue text name.name with
  | none => simp
  | some value => cases parsed : name.parse value <;> simp [parsed]

theorem reports_overridesFrom_iff
    (other : reason ≠ setTwice) {front rest : List ConfigurationProblem}
    (sorted : Sorted (layered (entriesOf text).1 base) front rest) :
    Reports (overridesFrom text base).2 name reason ↔
      (admitted text name).isSome = true ∧ Reports rest name reason := by
  have fresh : ¬Reports (entriesOf text).2 name reason :=
    fun reports => other (reason_of_reports_entriesOf reports)
  have refusedFront : refuses front name.name =
      refuses (configurationFrom (layered (entriesOf text).1 base)).2 name.name := by
    rw [sorted.whole, refuses_append, sorted.kept name settable, Bool.or_false]
  have remains : (front.foldl judge (entriesOf text)).1.contains name.name = true ↔
      (admitted text name).isSome = true := by
    have held := getElem?_entriesOf text name
    rw [if_pos settable] at held
    rw [admitted_isSome_iff settable, ← @refuses_layered text base name settable,
      Std.ExtTreeMap.contains_eq_isSome_getElem?, Std.ExtTreeMap.contains_eq_isSome_getElem?,
      getElem?_foldl_judge, refusedFront, held]
    cases refuses (configurationFrom (layered (entriesOf text).1 base)).2 name.name <;>
      cases lastValue text name.name <;> simp
  rw [overridesFrom_problems, sorted.whole, List.foldl_append,
    reports_foldl_judge (sorted.kept name settable), reports_foldl_refusals sorted.refusals,
    remains]
  simp only [fresh, false_or]

end

/-! ### What is judged and what is applied -/

/-- The cache policy the values of a context are judged by. -/
def judgedOptions (text : Bytes) (base : EnvironmentLookup) : CacheOptions :=
  (configurationFrom (layered (entriesOf text).1 base)).1.cache

/-- The cache policy a context has applied. -/
def appliedOptions (text : Bytes) (base : EnvironmentLookup) : CacheOptions :=
  (configurationFrom (layered (overridesFrom text base).1 base)).1.cache

theorem setting_judged_of_refused (settable : name ∈ contextVariables)
    (refused : LastValueRefused text name) :
    (configurationFrom (layered (entriesOf text).1 base)).1.setting name =
      ({} : ResolverConfiguration).setting name := by
  rcases refused with ⟨value, last, unparsed⟩
  have held := getElem?_entriesOf text name
  rw [if_pos settable, last] at held
  rw [setting_configurationFrom, layered, held]
  simp [unparsed]

theorem setting_judged_of_kept (kept : name ∈ contextVariables → ¬LastValueRefused text name) :
    (configurationFrom (layered (entriesOf text).1 base)).1.setting name =
      (configurationFrom (layered (overridesFrom text base).1 base)).1.setting name := by
  have held := getElem?_entriesOf text name
  rw [setting_layered, setting_configurationFrom, setting_configurationFrom base, layered, held,
    admitted]
  by_cases settable : name ∈ contextVariables
  · have unrefused := kept settable
    rw [if_pos settable, if_pos settable]
    cases last : lastValue text name.name with
    | none => rfl
    | some value =>
      cases parsed : name.parse value with
      | none => exact absurd ⟨value, last, parsed⟩ unrefused
      | some setting => simp [parsed]
  · rw [if_neg settable, if_neg settable]
    rfl

theorem blockSize_judged :
    (judgedOptions text base).blockSize = (appliedOptions text base).blockSize := by
  have same := @setting_judged_of_kept text base .blockSize
    fun settable => absurd settable (by decide)
  exact Int.ofNat.inj (Setting.count.inj same)

theorem maxRequestBytes_judged (kept : ¬LastValueRefused text .maxRequestBytes) :
    (judgedOptions text base).maxRequestBytes = (appliedOptions text base).maxRequestBytes := by
  have same := @setting_judged_of_kept text base .maxRequestBytes fun _ => kept
  exact Int.ofNat.inj (Setting.count.inj same)

theorem maxRequestBytes_judged_of_refused (refused : LastValueRefused text .maxRequestBytes) :
    (judgedOptions text base).maxRequestBytes = ({} : CacheOptions).maxRequestBytes ∧
      (appliedOptions text base).maxRequestBytes =
        (configurationFrom base).1.cache.maxRequestBytes := by
  have settable : Variable.maxRequestBytes ∈ contextVariables := by decide
  have judged := @setting_judged_of_refused text base .maxRequestBytes settable refused
  have applied := setting_layered text base .maxRequestBytes
  have unadmitted : admitted text .maxRequestBytes = none := by
    by_contra present
    rw [← ne_eq, Option.ne_none_iff_isSome, admitted_isSome_iff settable] at present
    exact present.2 refused
  rw [unadmitted] at applied
  exact ⟨Int.ofNat.inj (Setting.count.inj judged), Int.ofNat.inj (Setting.count.inj applied)⟩

theorem coalesceGapBlocks_judged (kept : (admitted text .coalesceGap).isSome = true) :
    (judgedOptions text base).coalesceGapBlocks = (appliedOptions text base).coalesceGapBlocks := by
  have settable : Variable.coalesceGap ∈ contextVariables := by decide
  have same := @setting_judged_of_kept text base .coalesceGap
    fun _ => ((admitted_isSome_iff settable).mp kept).2
  exact Int.ofNat.inj (Setting.count.inj same)

/-- A context keeps a count exactly where it applies it. -/
theorem getElem?_overridesFrom_count {value : CacheOptions → ℕ}
    (counts : ∀ configuration : ResolverConfiguration,
      configuration.setting name = .count (value configuration.cache)) (number : ℕ) :
    (overridesFrom text base).1[name.name]? = some (decimal number) ↔
      (admitted text name).isSome = true ∧ value (appliedOptions text base) = number := by
  rw [getElem?_overridesFrom]
  have applied := setting_layered text base name
  rw [counts] at applied
  cases admits : admitted text name with
  | none => simp
  | some setting =>
    rw [admits, Option.getD_some] at applied
    subst applied
    simp only [Option.map_some, Option.some.injEq, Option.isSome_some, true_and]
    exact ⟨fun same => decimal_injective same, fun same => congrArg decimal same⟩

end Context

/-! ### Warnings -/

/-- The cache policy in force for a context. -/
def inForce (text : Bytes) (base : EnvironmentLookup) : CacheOptions :=
  (appliedOptions text base).normalized

/-- The warnings about a context say what is applied. -/
structure DescribesApplied (text : Bytes) (base : EnvironmentLookup) : Prop where
  refused : ∀ name ∈ contextVariables,
    refuses (overridesFrom text base).2 name.name = true ↔ LastValueRefused text name
  capped : ∀ number, Reports (overridesFrom text base).2 .coalesceGap (cappedAt number) ↔
    ∃ gap, (overridesFrom text base).1[Variable.coalesceGap.name]? = some (decimal gap) ∧
      (inForce text base).coalesceGapBlocks ≠ gap ∧ number = (inForce text base).coalesceGapBlocks
  raised : ∀ number, Reports (overridesFrom text base).2 .maxRequestBytes (raisedTo number) ↔
    ∃ ceiling, (overridesFrom text base).1[Variable.maxRequestBytes.name]? =
        some (decimal ceiling) ∧
      (inForce text base).maxRequestBytes ≠ ceiling ∧ number = (inForce text base).maxRequestBytes

/-- What a gap is capped at under a ceiling, with the block size of the environment. -/
def capUnder (base : EnvironmentLookup) (gap ceiling : ℕ) : ℕ :=
  { (configurationFrom base).1.cache with
    coalesceGapBlocks := gap
    maxRequestBytes := ceiling : CacheOptions }.normalized.coalesceGapBlocks

/--
If a context has a gap and a ceiling that is refused, the gap is capped under the default
ceiling as it is under the ceiling of the environment.
-/
def CapsAlike (text : Bytes) (base : EnvironmentLookup) : Prop :=
  ∀ gap : ℕ, admitted text .coalesceGap = some (.count gap) →
    LastValueRefused text .maxRequestBytes →
      capUnder base gap ({} : CacheOptions).maxRequestBytes =
        capUnder base gap (configurationFrom base).1.cache.maxRequestBytes

section Warnings

variable {text : Bytes} {base : EnvironmentLookup}

theorem cappedAt_ne_setTwice (gap : ℕ) : cappedAt gap ≠ setTwice := by
  intro same
  have first := congrArg List.head? same
  rw [cappedAt, List.append_assoc, List.head?_append_of_ne_nil _ (by decide)] at first
  revert first
  decide

theorem raisedTo_ne_setTwice (ceiling : ℕ) : raisedTo ceiling ≠ setTwice := by
  intro same
  have first := congrArg List.head? same
  rw [raisedTo, List.append_assoc, List.append_assoc,
    List.head?_append_of_ne_nil _ (by decide)] at first
  revert first
  decide

theorem reports_cappedAt_iff (number : ℕ) :
    Reports (overridesFrom text base).2 .coalesceGap (cappedAt number) ↔
      (admitted text .coalesceGap).isSome = true ∧
        (judgedOptions text base).normalized.coalesceGapBlocks ≠
          (judgedOptions text base).coalesceGapBlocks ∧
        (judgedOptions text base).normalized.coalesceGapBlocks = number := by
  rcases exists_sorted (layered (entriesOf text).1 base) with ⟨front, rest, sorted⟩
  rw [reports_overridesFrom_iff (by decide) (cappedAt_ne_setTwice number) sorted, sorted.capped,
    cappedAt_inj]
  rfl

theorem reports_raisedTo_iff (number : ℕ) :
    Reports (overridesFrom text base).2 .maxRequestBytes (raisedTo number) ↔
      (admitted text .maxRequestBytes).isSome = true ∧
        (judgedOptions text base).normalized.maxRequestBytes ≠
          (judgedOptions text base).maxRequestBytes ∧
        (judgedOptions text base).normalized.maxRequestBytes = number := by
  rcases exists_sorted (layered (entriesOf text).1 base) with ⟨front, rest, sorted⟩
  rw [reports_overridesFrom_iff (by decide) (raisedTo_ne_setTwice number) sorted, sorted.raised,
    raisedTo_inj]
  rfl

/-- What a ceiling is raised to depends on the block size only. -/
theorem normalized_maxRequestBytes_congr {first second : CacheOptions}
    (blocks : first.blockSize = second.blockSize)
    (ceilings : first.maxRequestBytes = second.maxRequestBytes) :
    first.normalized.maxRequestBytes = second.normalized.maxRequestBytes := by
  simp only [CacheOptions.normalized, blocks, ceilings]

theorem normalized_coalesceGapBlocks_congr {first second : CacheOptions}
    (blocks : first.blockSize = second.blockSize)
    (ceilings : first.maxRequestBytes = second.maxRequestBytes)
    (gaps : first.coalesceGapBlocks = second.coalesceGapBlocks) :
    first.normalized.coalesceGapBlocks = second.normalized.coalesceGapBlocks := by
  simp only [CacheOptions.normalized, blocks, ceilings, gaps]

theorem blockSize_applied :
    (appliedOptions text base).blockSize = (configurationFrom base).1.cache.blockSize := by
  have applied := setting_layered text base .blockSize
  rw [admitted, if_neg (by decide), Option.getD_none] at applied
  exact Int.ofNat.inj (Setting.count.inj applied)

theorem capUnder_judged {gap : ℕ} (admits : admitted text .coalesceGap = some (.count gap))
    (refused : LastValueRefused text .maxRequestBytes) :
    capUnder base gap ({} : CacheOptions).maxRequestBytes =
        (judgedOptions text base).normalized.coalesceGapBlocks ∧
      capUnder base gap (configurationFrom base).1.cache.maxRequestBytes =
        (inForce text base).coalesceGapBlocks := by
  have applied := setting_layered text base .coalesceGap
  rw [admits, Option.getD_some] at applied
  have gaps : (appliedOptions text base).coalesceGapBlocks = gap :=
    Int.ofNat.inj (Setting.count.inj applied)
  have ceilings := @maxRequestBytes_judged_of_refused text base refused
  refine ⟨normalized_coalesceGapBlocks_congr ?_ ceilings.1.symm ?_,
    normalized_coalesceGapBlocks_congr blockSize_applied.symm ceilings.2.symm gaps.symm⟩
  · rw [blockSize_judged, blockSize_applied]
  · rw [coalesceGapBlocks_judged (by rw [admits]; rfl), gaps]

/-- The gap is judged as it is applied, wherever the context has one. -/
theorem capsAlike_iff :
    CapsAlike text base ↔ ((admitted text .coalesceGap).isSome = true →
      (judgedOptions text base).normalized.coalesceGapBlocks =
        (inForce text base).coalesceGapBlocks) := by
  constructor
  · intro alike isAdmitted
    by_cases refused : LastValueRefused text .maxRequestBytes
    · rcases Option.isSome_iff_exists.mp isAdmitted with ⟨setting, admits⟩
      have applied := setting_layered text base .coalesceGap
      rw [admits, Option.getD_some] at applied
      subst applied
      have caps := @capUnder_judged text base _ admits refused
      rw [← caps.1, ← caps.2]
      exact alike _ admits refused
    · exact normalized_coalesceGapBlocks_congr blockSize_judged (maxRequestBytes_judged refused)
        (coalesceGapBlocks_judged isAdmitted)
  · intro alike gap admits refused
    have caps := @capUnder_judged text base gap admits refused
    rw [caps.1, caps.2]
    exact alike (by rw [admits]; rfl)

end Warnings

theorem context_warnings_describe_applied_iff (text : Bytes) (base : EnvironmentLookup) :
    DescribesApplied text base ↔ CapsAlike text base := by
  have retainedGap := @getElem?_overridesFrom_count text base .coalesceGap
    CacheOptions.coalesceGapBlocks fun _ => rfl
  have retainedCeiling := @getElem?_overridesFrom_count text base .maxRequestBytes
    CacheOptions.maxRequestBytes fun _ => rfl
  rw [capsAlike_iff]
  constructor
  · intro described isAdmitted
    have capped := described.capped
    simp only [reports_cappedAt_iff, retainedGap, isAdmitted, true_and,
      coalesceGapBlocks_judged isAdmitted, exists_eq_left'] at capped
    -- either side may be the one that caps
    by_cases unchanged : (judgedOptions text base).normalized.coalesceGapBlocks =
        (appliedOptions text base).coalesceGapBlocks
    · by_contra differs
      have reported := (capped (inForce text base).coalesceGapBlocks).mpr
        ⟨fun same => differs (unchanged.trans same.symm), rfl⟩
      exact reported.1 unchanged
    · exact ((capped _).mp ⟨unchanged, rfl⟩).2
  · intro alike
    refine ⟨fun name settable => refuses_overridesFrom_iff settable, fun number => ?_,
      fun number => ?_⟩
    · simp only [reports_cappedAt_iff, retainedGap, and_assoc]
      constructor
      · rintro ⟨isAdmitted, changed, rfl⟩
        rw [coalesceGapBlocks_judged isAdmitted] at changed
        rw [alike isAdmitted] at changed ⊢
        exact ⟨_, isAdmitted, rfl, changed, rfl⟩
      · rintro ⟨_, isAdmitted, rfl, changed, rfl⟩
        rw [coalesceGapBlocks_judged isAdmitted, alike isAdmitted]
        exact ⟨isAdmitted, changed, rfl⟩
    · simp only [reports_raisedTo_iff, retainedCeiling, and_assoc]
      have ceilings : (admitted text .maxRequestBytes).isSome = true →
          (judgedOptions text base).maxRequestBytes = (appliedOptions text base).maxRequestBytes :=
        fun isAdmitted => maxRequestBytes_judged ((admitted_isSome_iff (by decide)).mp isAdmitted).2
      constructor
      · rintro ⟨isAdmitted, changed, rfl⟩
        have same := normalized_maxRequestBytes_congr blockSize_judged (ceilings isAdmitted)
        rw [ceilings isAdmitted, same] at changed
        exact ⟨_, isAdmitted, rfl, changed, same⟩
      · rintro ⟨_, isAdmitted, rfl, changed, rfl⟩
        have same := normalized_maxRequestBytes_congr blockSize_judged (ceilings isAdmitted)
        rw [ceilings isAdmitted, same]
        exact ⟨isAdmitted, changed, rfl⟩

/-- An environment with room for two blocks in a request. -/
def twoBlocks : EnvironmentLookup := fun name =>
  if name = Variable.maxRequestBytes.name then some (bytes "131072") else none

/--
The gap of one is applied under the environment's ceiling, which caps it at none; judged
under the default ceiling it is not reported.
-/
theorem context_gap_capped_unreported :
    ∃ text, ¬DescribesApplied text twoBlocks := by
  refine ⟨bytes "USD_HTTP_RESOLVER_MAX_REQUEST_BYTES=x;USD_HTTP_RESOLVER_COALESCE_GAP=1", ?_⟩
  intro described
  have reported := (described.capped 0).mpr ⟨1, by decide +kernel, by decide +kernel,
    by decide +kernel⟩
  rw [reports_cappedAt_iff] at reported
  exact reported.2.1 (by decide +kernel)

end UsdAsset.Resolver
