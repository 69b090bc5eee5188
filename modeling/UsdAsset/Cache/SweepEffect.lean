import UsdAsset.Cache.SweepLedger

/-!
# What a sweep leaves

A sweep that nobody interferes with removes the temporaries that are too old and then,
where the rest exceeds its budget, the shortest oldest-first prefix of it that leaves
seven eighths of the budget or less.  `Progress` relates every place of a sweep to the
directory it began with.
-/

namespace UsdAsset.Cache

open ByteString Machine

variable {path : Bytes} {candidate : Candidate}

/-! ### The result of a sweep -/

def isStale (path : Bytes) (file : File StoredBlock) (now : ℕ) : Bool :=
  isTemporary path && decide (file.written + staleSeconds < now)

def candidateOf (path : Bytes) (file : File StoredBlock) : Candidate :=
  ⟨path, file.content.length, file.written⟩

/--
The files of a directory as a sweep sorts them: temporaries that are too old, and all the
others, oldest first.  Time passes during the sweep, so a temporary may get too old.
-/
structure Inventory (plan : SweepPlan) (start : FileSystem StoredBlock) (now : ℕ)
    (stale : List Bytes) (order : List Candidate) : Prop where
  old : ∀ {path : Bytes} {file : File StoredBlock}, isUnder plan.root path = true →
    start.fileAt path = some file → isStale path file start.now = true → path ∈ stale
  onlyOld : ∀ {path : Bytes}, path ∈ stale → isUnder plan.root path = true ∧
    ∃ file, start.fileAt path = some file ∧ isStale path file now = true
  listed : ∀ {candidate : Candidate}, candidate ∈ order ↔
    isUnder plan.root candidate.path = true ∧ candidate.path ∉ stale ∧
      ∃ file, start.fileAt candidate.path = some file ∧ candidate = candidateOf candidate.path file
  distinct : (order.map Candidate.path).Nodup
  oldestFirst : order.Pairwise fun first second => first.written ≤ second.written

/-- The sweep removed the stale temporaries and the first `count` of the others. -/
structure SweptBy (plan : SweepPlan) (start disk : FileSystem StoredBlock) (stale : List Bytes)
    (order : List Candidate) (count : ℕ) : Prop where
  inventory : Inventory plan start disk.now stale order
  fits : sizes order ≤ plan.budget → count = 0
  enough : plan.budget < sizes order →
    sizes (order.drop count) ≤ plan.budget - plan.budget / 8
  shortest : ∀ {fewer : ℕ}, fewer < count →
    plan.budget - plan.budget / 8 < sizes (order.drop fewer)
  files : ∀ path, disk.fileAt path =
    if path ∈ stale ∨ path ∈ (order.take count).map Candidate.path then none
    else start.fileAt path

section Result

variable {plan : SweepPlan} {start disk : FileSystem StoredBlock} {now : ℕ} {stale : List Bytes}
  {order : List Candidate} {count : ℕ}

theorem isStale_mono {file : File StoredBlock} {later : ℕ} (old : isStale path file now = true)
    (passes : now ≤ later) :
    isStale path file later = true := by
  simp only [isStale, Bool.and_eq_true, decide_eq_true_eq] at old ⊢
  exact ⟨old.1, by omega⟩

theorem Inventory.mono (inventory : Inventory plan start now stale order) {later : ℕ}
    (passes : now ≤ later) : Inventory plan start later stale order where
  old := inventory.old
  onlyOld mem := by
    rcases inventory.onlyOld mem with ⟨under, file, present, old⟩
    exact ⟨under, file, present, isStale_mono old passes⟩
  listed := inventory.listed
  distinct := inventory.distinct
  oldestFirst := inventory.oldestFirst

theorem SweptBy.sizes_le (swept : SweptBy plan start disk stale order count) :
    sizes (order.drop count) ≤ plan.budget := by
  rcases Nat.lt_or_ge plan.budget (sizes order) with exceeds | fits
  · exact (swept.enough exceeds).trans (Nat.sub_le _ _)
  · rw [swept.fits fits, List.drop_zero]
    exact fits

theorem le_covering {candidates : List Candidate} (mem : candidate ∈ candidates) :
    candidate.size ≤ covering candidates candidate.path := by
  induction candidates with
  | nil => cases mem
  | cons first rest ih =>
    rw [covering]
    rcases List.mem_cons.mp mem with rfl | later
    · rw [if_pos rfl]
      omega
    · have := ih later
      omega

theorem SweptBy.weigh_le (swept : SweptBy plan start disk stale order count) :
    disk.weigh (isUnder plan.root) (fun _ => 0) ≤ sizes (order.drop count) := by
  have nothing : disk.weigh (isUnder plan.root) (covering (order.drop count)) = 0 := by
    refine Finset.sum_eq_zero fun path _ => ?_
    simp only [FileSystem.uncovered]
    split
    · rename_i under
      cases present : disk.fileAt path with
      | none => simp [FileSystem.lengthAt, present]
      | some file =>
        have kept := swept.files path
        rw [present] at kept
        split at kept
        · cases kept
        · rename_i left
          rw [not_or] at left
          have known : candidateOf path file ∈ order :=
            swept.inventory.listed.mpr ⟨under, left.1, file, kept.symm, rfl⟩
          have remains : candidateOf path file ∈ order.drop count := by
            rw [← List.take_append_drop count order] at known
            rcases List.mem_append.mp known with taken | remains
            · exact absurd (List.mem_map_of_mem taken) left.2
            · exact remains
          have covers := le_covering remains
          rw [FileSystem.lengthAt_of_fileAt present]
          exact Nat.sub_eq_zero_of_le covers
    · rfl
  have most := @weigh_le_sizes disk (isUnder plan.root) (order.drop count)
  omega

/-- The newest file is the last to go, and it alone fits. -/
theorem SweptBy.keeps_newest (swept : SweptBy plan start disk stale order count)
    {file : File StoredBlock} (under : isUnder plan.root path = true)
    (entry : isTemporary path = false) (present : start.fileAt path = some file)
    (small : 4 * file.content.length ≤ plan.budget)
    (newest : ∀ {other : Bytes} {older : File StoredBlock}, other ≠ path →
      isUnder plan.root other = true → start.fileAt other = some older →
        older.written < file.written) :
    disk.fileAt path = some file := by
  have notStale : path ∉ stale := by
    intro mem
    rcases swept.inventory.onlyOld mem with ⟨_, _, _, old⟩
    simp [isStale, entry] at old
  rw [swept.files path, if_neg, present]
  rintro (mem | mem)
  · exact notStale mem
  -- Whatever is younger than the newest is not there, so nothing follows it.
  rcases List.mem_map.mp mem with ⟨candidate, taken, rfl⟩
  rcases List.append_of_mem taken with ⟨before, between, split⟩
  have whole : order = before ++ candidate :: (between ++ order.drop count) := by
    rw [← List.cons_append, ← List.append_assoc, ← split, List.take_append_drop]
  have candidateEq : candidate.size = file.content.length ∧ candidate.written = file.written := by
    rcases (swept.inventory.listed.mp (List.mem_of_mem_take taken)).2.2 with ⟨same, found, eq⟩
    rw [present, Option.some.injEq] at found
    rw [eq, ← found]
    exact ⟨rfl, rfl⟩
  have last : between ++ order.drop count = [] := by
    refine List.eq_nil_iff_forall_not_mem.mpr fun other later => ?_
    have otherMem : other ∈ order := by
      rw [whole]
      simp only [List.mem_append, List.mem_cons] at later ⊢
      exact Or.inr (Or.inr later)
    rcases swept.inventory.listed.mp otherMem with ⟨otherUnder, _, older, olderAt, olderEq⟩
    have different : other.path ≠ candidate.path := by
      have distinct := swept.inventory.distinct
      rw [whole, List.map_append, List.map_cons, List.nodup_append] at distinct
      intro same
      refine (List.nodup_cons.mp distinct.2.1).1 ?_
      rw [← same]
      exact List.mem_map_of_mem later
    have younger : candidate.written ≤ other.written := by
      have ordered := swept.inventory.oldestFirst
      rw [whole, List.pairwise_append] at ordered
      exact (List.pairwise_cons.mp ordered.2.1).1 other later
    have older := newest different otherUnder olderAt
    rw [olderEq] at younger
    simp only [candidateOf] at younger
    omega
  have early : before.length < count := by
    have length := congrArg List.length split
    rw [List.length_take, List.length_append, List.length_cons] at length
    omega
  have exceeds := swept.shortest early
  rw [whole, last, List.drop_left] at exceeds
  simp only [sizes, List.map_cons, List.map_nil, List.sum_cons, List.sum_nil] at exceeds
  omega

end Result

/-! ### The places of a sweep -/

/-- What the walk has come across so far, of the directory it began with. -/
structure Walking (start disk : FileSystem StoredBlock) (sweep : Sweep) (stale : List Bytes) :
    Prop where
  later : start.now ≤ disk.now
  files : ∀ path, disk.fileAt path = if path ∈ stale then none else start.fileAt path
  within : ∀ {path : Bytes}, path ∈ sweep.visited → isUnder sweep.plan.root path = true
  onlyOld : ∀ {path : Bytes}, path ∈ stale → path ∈ sweep.visited ∧
    ∃ file, start.fileAt path = some file ∧ isStale path file disk.now = true
  seen : ∀ {path : Bytes} {file : File StoredBlock}, path ∈ sweep.visited → path ∉ stale →
    start.fileAt path = some file →
      isStale path file start.now = false ∧ candidateOf path file ∈ sweep.candidates
  listed : ∀ {candidate : Candidate}, candidate ∈ sweep.candidates →
    candidate.path ∈ sweep.visited ∧ candidate.path ∉ stale ∧
      ∃ file, start.fileAt candidate.path = some file ∧ candidate = candidateOf candidate.path file
  distinct : (sweep.candidates.map Candidate.path).Nodup
  total_eq : sweep.total = sizes sweep.candidates

/-- What the sweep has trimmed so far. -/
structure Trimming (start disk : FileSystem StoredBlock) (sweep : Sweep) (rest : List Candidate)
    (stale : List Bytes) (order : List Candidate) (count : ℕ) : Prop where
  inventory : Inventory sweep.plan start disk.now stale order
  exceeds : sweep.plan.budget < sizes order
  rest_eq : rest = order.drop count
  total_eq : sweep.total = sizes rest
  shortest : ∀ {fewer : ℕ}, fewer < count → sweep.target < sizes (order.drop fewer)
  files : ∀ path, disk.fileAt path =
    if path ∈ stale ∨ path ∈ (order.take count).map Candidate.path then none
    else start.fileAt path

/-- How far a sweep is that began with a directory. -/
def Progress (start disk : FileSystem StoredBlock) : DiskPc → Prop
  | .walk sweep => ∃ stale, Walking start disk sweep stale
  | .trim sweep rest => ∃ stale order count, Trimming start disk sweep rest stale order count
  | .endSweep sweep => ∃ stale order count, SweptBy sweep.plan start disk stale order count
  | _ => True

section Places

variable {start disk : FileSystem StoredBlock} {sweep : Sweep} {stale : List Bytes}
  {process : DiskProcess} {choice : Choice} {call : DiskCall} {outcome : Outcome}

theorem walking_start (disk : FileSystem StoredBlock) (plan : SweepPlan) :
    Walking disk disk { plan } [] where
  later := Nat.le_refl _
  files := by simp
  within := nofun
  onlyOld := nofun
  seen := nofun
  listed := nofun
  distinct := List.nodup_nil
  total_eq := rfl

theorem Walking.visit (walking : Walking start disk sweep stale)
    (unvisited : path ∉ sweep.visited) (under : isUnder sweep.plan.root path = true) :
    ∃ stale, Walking start
      (if (sweep.visit path (disk.fileAt path) disk.now).1 then disk.remove path else disk)
      (sweep.visit path (disk.fileAt path) disk.now).2 stale := by
  have fresh : path ∉ stale := fun mem => unvisited (walking.onlyOld mem).1
  have here : disk.fileAt path = start.fileAt path := by rw [walking.files, if_neg fresh]
  have within : ∀ {name : Bytes}, name ∈ path :: sweep.visited →
      isUnder sweep.plan.root name = true := by
    intro name mem
    rcases List.mem_cons.mp mem with rfl | before
    · exact under
    · exact walking.within before
  simp only [Sweep.visit]
  cases present : disk.fileAt path with
  | none =>
    refine ⟨stale, walking.later, walking.files, within, ?_, ?_, ?_, walking.distinct,
      walking.total_eq⟩
    · intro name mem
      rcases walking.onlyOld mem with ⟨visited, old⟩
      exact ⟨List.mem_cons_of_mem _ visited, old⟩
    · intro name file mem kept found
      rcases List.mem_cons.mp mem with rfl | before
      · rw [← here, present] at found
        cases found
      · exact walking.seen before kept found
    · intro candidate mem
      rcases walking.listed mem with ⟨visited, rest⟩
      exact ⟨List.mem_cons_of_mem _ visited, rest⟩
  | some file =>
    rw [present] at here
    dsimp only
    split
    · rename_i old
      refine ⟨path :: stale, walking.later, ?_, within, ?_, ?_, ?_, walking.distinct,
        walking.total_eq⟩
      · intro name
        rw [if_pos rfl, FileSystem.fileAt_remove, walking.files]
        by_cases same : name = path
        · simp [same]
        · simp [same]
      · intro name mem
        rcases List.mem_cons.mp mem with rfl | before
        · exact ⟨List.mem_cons_self, file, here.symm, old⟩
        · rcases walking.onlyOld before with ⟨visited, rest⟩
          exact ⟨List.mem_cons_of_mem _ visited, rest⟩
      · intro name found mem kept
        rw [List.mem_cons, not_or] at kept
        exact walking.seen ((List.mem_cons.mp mem).resolve_left kept.1) kept.2
      · intro candidate mem
        rcases walking.listed mem with ⟨visited, kept, rest⟩
        refine ⟨List.mem_cons_of_mem _ visited, ?_, rest⟩
        rw [List.mem_cons, not_or]
        refine ⟨?_, kept⟩
        rintro same
        exact unvisited (same ▸ visited)
    · rename_i young
      refine ⟨stale, walking.later, walking.files, within, ?_, ?_, ?_, ?_, ?_⟩
      · intro name mem
        rcases walking.onlyOld mem with ⟨visited, old⟩
        exact ⟨List.mem_cons_of_mem _ visited, old⟩
      · intro name found mem kept at_
        rcases List.mem_cons.mp mem with rfl | before
        · rw [← here, Option.some.injEq] at at_
          subst at_
          refine ⟨?_, List.mem_append_right _ (List.mem_singleton_self _)⟩
          rw [Bool.eq_false_iff]
          exact fun old => young (isStale_mono old walking.later)
        · rcases walking.seen before kept at_ with ⟨notOld, candidate⟩
          exact ⟨notOld, List.mem_append_left _ candidate⟩
      · intro candidate mem
        rcases List.mem_append.mp mem with before | now
        · rcases walking.listed before with ⟨visited, rest⟩
          exact ⟨List.mem_cons_of_mem _ visited, rest⟩
        · rw [List.mem_singleton.mp now]
          exact ⟨List.mem_cons_self, fresh, file, here.symm, rfl⟩
      · rw [List.map_append, List.map_singleton, List.nodup_append]
        refine ⟨walking.distinct, List.nodup_singleton _, ?_⟩
        intro name mem other otherMem
        rcases List.mem_map.mp mem with ⟨candidate, listed, rfl⟩
        rw [List.mem_singleton.mp otherMem]
        intro same
        have visited := (walking.listed listed).1
        rw [same] at visited
        exact unvisited visited
      · simp only [sizes, List.map_append, List.sum_append, walking.total_eq]
        rfl

theorem ordered_oldestFirst (sweep : Sweep) :
    sweep.ordered.Pairwise fun first second => first.written ≤ second.written := by
  have sorted := @List.pairwise_mergeSort _
    (fun first second : Candidate => decide (first.written ≤ second.written))
    (fun _ _ _ first second => by
      simp only [decide_eq_true_eq] at first second ⊢
      omega)
    (fun first second => by
      simp only [Bool.or_eq_true, decide_eq_true_eq]
      omega)
    sweep.candidates
  exact sorted.imp fun ordered => by simpa using ordered

/-- A walk that came across everything has made an inventory. -/
theorem Walking.inventory (walking : Walking start disk sweep stale)
    (walked : ∀ path ∈ disk.paths, isUnder sweep.plan.root path = true → path ∈ sweep.visited) :
    Inventory sweep.plan start disk.now stale sweep.ordered := by
  have all : ∀ {path : Bytes} {file : File StoredBlock}, isUnder sweep.plan.root path = true →
      path ∉ stale → start.fileAt path = some file → path ∈ sweep.visited := by
    intro path file under kept found
    refine walked path ?_ under
    have present : disk.fileAt path = some file := by rw [walking.files, if_neg kept, found]
    rcases Option.bind_eq_some_iff.mp present with ⟨named, namedEq, _⟩
    exact FileSystem.mem_paths.mpr ⟨named, namedEq⟩
  have same : ∀ {candidate : Candidate}, candidate ∈ sweep.ordered ↔
      candidate ∈ sweep.candidates := (ordered_perm sweep).mem_iff
  refine ⟨?_, ?_, ?_, ?_, ordered_oldestFirst sweep⟩
  · intro path file under found old
    by_contra kept
    have young := (walking.seen (all under kept found) kept found).1
    rw [old] at young
    cases young
  · intro path mem
    rcases walking.onlyOld mem with ⟨visited, old⟩
    exact ⟨walking.within visited, old⟩
  · intro candidate
    rw [same]
    constructor
    · intro mem
      rcases walking.listed mem with ⟨visited, rest⟩
      exact ⟨walking.within visited, rest⟩
    · rintro ⟨under, kept, file, found, eq⟩
      rw [eq]
      exact (walking.seen (all under kept found) kept found).2
  · exact ((ordered_perm sweep).map Candidate.path).nodup_iff.mpr walking.distinct

theorem sizes_ordered (sweep : Sweep) : sizes sweep.ordered = sizes sweep.candidates :=
  sizes_perm (ordered_perm sweep)

theorem Trimming.present {rest order : List Candidate} {count : ℕ}
    (trimming : Trimming start disk sweep (candidate :: rest) stale order count) :
    order.drop count = candidate :: rest ∧ disk.fileAt candidate.path ≠ none := by
  have split := trimming.rest_eq.symm
  refine ⟨split, ?_⟩
  have mem : candidate ∈ order := List.mem_of_mem_drop (by rw [split]; exact List.mem_cons_self)
  rcases trimming.inventory.listed.mp mem with ⟨_, kept, file, found, _⟩
  rw [trimming.files, if_neg, found]
  · exact Option.some_ne_none file
  · rintro (old | taken)
    · exact kept old
    · have distinct := trimming.inventory.distinct
      rw [← List.take_append_drop count order, split, List.map_append, List.map_cons,
        List.nodup_append] at distinct
      exact distinct.2.2 _ taken _ List.mem_cons_self rfl

theorem Trimming.trim {rest order : List Candidate} {count : ℕ}
    (trimming : Trimming start disk sweep (candidate :: rest) stale order count)
    (exceeds : sweep.target < sweep.total) :
    Trimming start (disk.remove candidate.path) (sweep.trim candidate) rest stale order
      (count + 1) := by
  have split := trimming.present.1
  have further : order.take (count + 1) = order.take count ++ [candidate] := by
    rw [List.take_add_one]
    have here : order[count]? = some candidate := by
      rw [← List.head?_drop, split, List.head?_cons]
    rw [here]
    rfl
  refine ⟨trimming.inventory, trimming.exceeds, ?_, ?_, ?_, ?_⟩
  · rw [← List.tail_drop, split, List.tail_cons]
  · have total := trimming.total_eq
    simp only [sizes, List.map_cons, List.sum_cons, Sweep.trim] at total ⊢
    omega
  · intro fewer less
    rcases Nat.lt_succ_iff_lt_or_eq.mp less with earlier | rfl
    · exact trimming.shortest earlier
    · rw [split, ← trimming.total_eq]
      exact exceeds
  · intro path
    rw [FileSystem.fileAt_remove, trimming.files, further, List.map_append, List.map_singleton]
    by_cases same : path = candidate.path
    · simp [same]
    · simp [same]

/-- Every operation succeeds, and a walk ends only when it has come across every name. -/
structure Orderly (disk : FileSystem StoredBlock) (choice : Choice) (call : DiskCall) : Prop where
  succeeds : (∀ sweep, call.pc ≠ .walk sweep) → choice.succeeds = true
  walked : ∀ sweep, call.pc = .walk sweep → choice.succeeds = false →
    ∀ path ∈ disk.paths, isUnder sweep.plan.root path = true → path ∈ sweep.visited

theorem Progress.transition (progress : Progress start disk call.pc)
    (sweeps : call.pc.sweep? ≠ none)
    (orderly : Orderly disk choice call)
    (transition : DiskTransition disk process choice call outcome) :
    Progress start outcome.disk outcome.pc := by
  cases transition with
  | lingers pc => rwa [pc] at progress
  | visits pc unvisited under =>
    rw [pc] at progress
    rcases progress with ⟨stale, walking⟩
    exact walking.visit unvisited under
  | overflows pc ended exceeds =>
    rw [pc] at progress
    rcases progress with ⟨stale, walking⟩
    refine ⟨stale, _, 0, walking.inventory (orderly.walked _ pc ended), ?_, rfl, ?_, nofun, ?_⟩
    · rw [sizes_ordered, ← walking.total_eq]
      exact exceeds
    · rw [sizes_ordered, walking.total_eq]
    · simpa using walking.files
  | fits pc ended fits =>
    rw [pc] at progress
    rcases progress with ⟨stale, walking⟩
    refine ⟨stale, _, 0, walking.inventory (orderly.walked _ pc ended), fun _ => rfl, ?_, nofun, ?_⟩
    · rw [sizes_ordered, ← walking.total_eq]
      intro exceeds
      omega
    · simpa using walking.files
  | trims pc exceeds =>
    rw [pc] at progress
    rcases progress with ⟨stale, order, count, trimming⟩
    exact ⟨stale, order, count + 1, trimming.trim exceeds⟩
  | @skips sweep candidate rest pc exceeds absent =>
    rw [pc] at progress
    rcases progress with ⟨stale, order, count, trimming⟩
    have gone : disk.find candidate.path = none := absent (orderly.succeeds (by rw [pc]; nofun))
    exact absurd (by simp [FileSystem.fileAt, gone]) trimming.present.2
  | @settles sweep candidates pc enough =>
    rw [pc] at progress
    rcases progress with ⟨stale, order, count, trimming⟩
    refine ⟨stale, order, count, trimming.inventory, ?_, ?_, trimming.shortest, trimming.files⟩
    · intro fits
      exact absurd trimming.exceeds (Nat.not_lt.mpr fits)
    · intro _
      rw [← trimming.rest_eq]
      rcases enough with rfl | enough
      · exact Nat.zero_le _
      · rw [← trimming.total_eq]
        exact enough
  | ends => trivial
  | moves _ before | removes before | opens before =>
    exact absurd (DiskPc.sweep?_of_offBooks before) sweeps
  | fails writes => exact absurd (DiskPc.of_writing writes).1 sweeps
  | configures pc | clears pc | creates pc | writes pc | completes pc | publishes pc | rests pc
    | begins pc | reads pc | decodes pc | finishes pc => exact absurd (by rw [pc]; rfl) sweeps

theorem Progress.tick {pc : DiskPc} (progress : Progress start disk pc) (seconds : ℕ) :
    Progress start { disk with now := disk.now + seconds } pc := by
  have passes : disk.now ≤ disk.now + seconds := Nat.le_add_right _ _
  cases pc with
  | walk sweep =>
    rcases progress with ⟨stale, walking⟩
    refine ⟨stale, { walking with later := walking.later.trans passes, onlyOld := ?_ }⟩
    intro path mem
    rcases walking.onlyOld mem with ⟨visited, file, found, old⟩
    exact ⟨visited, file, found, isStale_mono old passes⟩
  | trim sweep rest =>
    rcases progress with ⟨stale, order, count, trimming⟩
    exact ⟨stale, order, count, { trimming with inventory := trimming.inventory.mono passes }⟩
  | endSweep sweep =>
    rcases progress with ⟨stale, order, count, swept⟩
    exact ⟨stale, order, count, { swept with inventory := swept.inventory.mono passes }⟩
  | _ => trivial

end Places

end UsdAsset.Cache
