import Mathlib.Algebra.BigOperators.Group.Finset.Piecewise
import UsdAsset.Cache.Codec
import UsdAsset.Cache.Directory

/-!
# Sweeps do not lose count

One process stores, clears and sweeps concurrently.  A sweep counts what its walk comes
across, and the store counts what is published from the moment a sweep begins, so an
entry may be counted by either, or by both, and by none only if it is gone.  The total of
a sweep is taken over if neither a clear nor a configuration came in between, which the
epoch tells.

`WatchedTier` runs the tier next to a record of what was published since the last sweep
began: a walk may miss such an entry, and nothing that was there all along.
-/

namespace UsdAsset.Cache

open ByteString Machine FileSystem DiskBlockStore

/-! ### The tier and a record of its run -/

structure WatchedTier where
  system : DiskSystem
  /-- The entries published since the last sweep began. -/
  published : List Bytes := []
  /-- Whether a sweep has begun since the last configuration. -/
  begun : Bool := false
  /-- Whether a sweep has ended since the last configuration, or the directory was cleared. -/
  completed : Bool := false
  /-- Whether a sweep that began since the last configuration has ended, or the directory was
  cleared since. -/
  counted : Bool := false

namespace WatchedTier

def note (tier : WatchedTier) (call : DiskCall) (enabled : Bool) (pc : DiskPc) : WatchedTier :=
  match call.pc, pc with
  | .rename path _ _, .account => { tier with published := path :: tier.published }
  | .account, .walk _ => { tier with published := [], begun := true }
  | .endSweep _, _ => { tier with completed := true, counted := tier.counted || tier.begun }
  | .start, _ =>
      match call.request with
      | .configure _ => { tier with begun := false, completed := false, counted := false }
      | .clear => if enabled then { tier with completed := true, counted := true } else tier
      | _ => tier
  | _, _ => tier

def step (tier : WatchedTier) (event : DiskEvent) : Option WatchedTier :=
  match event with
  | .step callId choice =>
      (tier.system.calls[callId]?).bind fun call =>
        (tier.system.processes[call.process]?).bind fun process =>
          (advance tier.system.disk process choice call).map fun outcome =>
            { tier.note call process.store.enabled outcome.pc with
              system := tier.system.after callId call process outcome }
  | event => (tier.system.step event).map fun next => { tier with system := next }

theorem step_system (tier : WatchedTier) (event : DiskEvent) :
    (tier.step event).map WatchedTier.system = tier.system.step event := by
  cases event with
  | step callId choice =>
    simp only [step, DiskSystem.step, Option.map_bind]
    congr 1
    funext call
    simp only [Function.comp_apply, Option.map_bind, Option.map_map]
    rfl
  | _ => simp [step, Option.map_map, Function.comp_def]

/--
Only calls of the one process take steps and every operation on the file system
succeeds.  No two stores write under one temporary name, and a walk ends only when it has
come across every name that was there all along.
-/
def undisturbed (tier : WatchedTier) : DiskEvent → Bool
  | .call .. | .tick _ => true
  | .step callId choice =>
      (tier.system.calls[callId]?).all fun call =>
        match call.pc with
        | .openTemporary path =>
            choice.succeeds && (tier.system.processes[call.process]?).all fun process =>
              !held tier.system.calls
                (temporaryFor path process.nonce process.store.tempCounter)
        | .walk sweep =>
            choice.succeeds || tier.system.disk.names.keys.all fun path =>
              !standing tier.system.calls sweep.plan.root path ||
                sweep.visited.contains path || tier.published.contains path
        | _ => choice.succeeds
  | _ => false

/-- One process over a directory with any content. -/
def opening (now : ℕ) (contents : List (Bytes × File StoredBlock)) (nonce : UInt64) :
    WatchedTier where
  system := { disk := .holding now contents, processes := [{ nonce }] }

end WatchedTier

/-! ### The account of a store -/

/-- The store once an entry was counted, before a sweep is considered. -/
def DiskBlockStore.counted (store : DiskBlockStore) (size : ℕ) : DiskBlockStore :=
  { store with
    bytesSinceSweep := store.bytesSinceSweep + size
    largestEntryBytes := max store.largestEntryBytes size
    stats :=
      { store.stats with
        writes := store.stats.writes + 1
        bytesWritten := store.stats.bytesWritten + size } }

theorem account_eq_none {store next : DiskBlockStore} {size : ℕ}
    (accounted : store.account size = (none, next)) :
    next = store.counted size ∧
      (next.swept = true ∧ next.bytesSinceSweep < next.sweepInterval ∨
        store.sweeping = true ∨ store.enabled = false) := by
  simp only [account] at accounted
  split at accounted
  · simp only [beginSweep] at accounted
    split at accounted
    · rename_i blocked
      cases accounted
      exact ⟨rfl, Or.inr (by simpa using blocked)⟩
    · cases accounted
  · rename_i undue
    cases accounted
    refine ⟨rfl, Or.inl ?_⟩
    simpa using undue

theorem account_eq_some {store next : DiskBlockStore} {size : ℕ} {plan : SweepPlan}
    (accounted : store.account size = (some plan, next)) :
    store.sweeping = false ∧ store.enabled = true ∧
      plan = ⟨store.root, (store.counted size).effectiveBudget, store.epoch⟩ ∧
      ∃ stats, next =
        { store.counted size with sweeping := true, swept := true, bytesSinceSweep := 0, stats } := by
  simp only [account] at accounted
  split at accounted
  · simp only [beginSweep] at accounted
    split at accounted
    · cases accounted
    · rename_i free
      simp only [Bool.or_eq_true, Bool.not_eq_true', not_or, Bool.not_eq_true,
        Bool.not_eq_false] at free
      cases accounted
      exact ⟨free.1, free.2, rfl, _, rfl⟩
  · cases accounted

/-! ### At most one sweep -/

/-- Whoever sweeps has the right to, which only one can have. -/
structure OneSweep (store : DiskBlockStore) (calls : List DiskCall) : Prop where
  claimed : ∀ {callId : ℕ} {call : DiskCall}, calls[callId]? = some call →
    ∀ {sweep : Sweep}, call.pc.sweep? = some sweep → store.sweeping = true
  only : ∀ {callId otherId : ℕ} {call other : DiskCall}, calls[callId]? = some call →
    calls[otherId]? = some other → ∀ {sweep otherSweep : Sweep}, call.pc.sweep? = some sweep →
      other.pc.sweep? = some otherSweep → otherId = callId
  planned : ∀ {callId : ℕ} {call : DiskCall}, calls[callId]? = some call →
    ∀ {sweep : Sweep}, call.pc.sweep? = some sweep → sweep.plan.epoch ≤ store.epoch ∧
      (sweep.plan.epoch = store.epoch → sweep.plan.root = store.root)

section OneSweep

variable {disk : FileSystem StoredBlock} {store next : DiskBlockStore} {calls : List DiskCall}
  {callId : ℕ} {call : DiskCall} {pc : DiskPc} {process : DiskProcess} {choice : Choice}
  {outcome : Outcome}

theorem OneSweep.set (one : OneSweep store calls) (found : calls[callId]? = some call)
    (still : ∀ {sweep : Sweep}, pc.sweep? = some sweep →
      ∃ before, call.pc.sweep? = some before ∧ sweep.plan = before.plan)
    (sweeping : ∀ {otherId : ℕ} {other : DiskCall} {sweep : Sweep},
      (calls.set callId { call with pc })[otherId]? = some other →
        other.pc.sweep? = some sweep → next.sweeping = store.sweeping)
    (epoch : store.epoch ≤ next.epoch)
    (root : next.epoch = store.epoch → next.root = store.root) :
    OneSweep next (calls.set callId { call with pc }) := by
  have before : ∀ {otherId : ℕ} {other : DiskCall},
      (calls.set callId { call with pc })[otherId]? = some other →
        ∀ {sweep : Sweep}, other.pc.sweep? = some sweep →
          ∃ past earlier, calls[otherId]? = some past ∧ past.pc.sweep? = some earlier ∧
            sweep.plan = earlier.plan := by
    intro otherId other otherFound sweep sweeps
    rcases getElem?_set_cases otherFound with ⟨rfl, rfl⟩ | ⟨_, same⟩
    · rcases still sweeps with ⟨earlier, swept, plan⟩
      exact ⟨call, earlier, found, swept, plan⟩
    · exact ⟨other, sweep, same, sweeps, rfl⟩
  refine ⟨?_, ?_, ?_⟩
  · intro otherId other otherFound sweep sweeps
    rcases before otherFound sweeps with ⟨past, earlier, pastFound, swept, _⟩
    rw [sweeping otherFound sweeps]
    exact one.claimed pastFound swept
  · intro firstId secondId first second firstFound secondFound sweep otherSweep firstSweeps
      secondSweeps
    rcases before firstFound firstSweeps with ⟨past, earlier, pastFound, swept, _⟩
    rcases before secondFound secondSweeps with ⟨other, otherEarlier, otherFound, otherSwept, _⟩
    exact one.only pastFound otherFound swept otherSwept
  · intro otherId other otherFound sweep sweeps
    rcases before otherFound sweeps with ⟨past, earlier, pastFound, swept, plan⟩
    rcases one.planned pastFound swept with ⟨bounded, rooted⟩
    rw [plan]
    refine ⟨bounded.trans epoch, fun same => ?_⟩
    have unchanged : next.epoch = store.epoch := by omega
    rw [root unchanged]
    exact rooted (by omega)

theorem OneSweep.transition (one : OneSweep process.store calls)
    (found : calls[callId]? = some call)
    (transition : DiskTransition disk process choice call outcome) :
    OneSweep outcome.store (calls.set callId { call with pc := outcome.pc }) := by
  -- All but the begin and the end of a sweep leave the right to sweep where it is.
  have calm : ∀ {next : DiskBlockStore} {pc : DiskPc}, process.store.SameBooks next →
      (∀ {sweep : Sweep}, pc.sweep? = some sweep →
        ∃ before, call.pc.sweep? = some before ∧ sweep.plan = before.plan) →
      OneSweep next (calls.set callId { call with pc }) := by
    rintro _ pc ⟨_, _, rfl⟩ still
    exact one.set found still (fun _ _ => rfl) (Nat.le_refl _) fun _ => rfl
  have same := SameBooks.refl process.store
  cases transition with
  | moves books _ _ after =>
    exact calm books (by simp [DiskPc.sweep?_of_offBooks after])
  | removes _ _ after => exact calm same (by simp [DiskPc.sweep?_of_offBooks after])
  | configures =>
    refine one.set found nofun ?_ ?_ ?_
    · intros
      simp only [DiskBlockStore.configure]
      split
      · rfl
      · split <;> rfl
    · simp only [DiskBlockStore.configure]
      split
      · exact Nat.le_succ _
      · split <;> exact Nat.le_succ _
    · simp only [DiskBlockStore.configure]
      split
      · simp
      · split <;> simp
  | clears =>
    exact one.set found nofun (fun _ _ => rfl) (Nat.le_succ _) fun _ => rfl
  | creates => exact calm ⟨_, _, rfl⟩ nofun
  | rests pc request accounted =>
    rcases account_eq_none accounted with ⟨rfl, _⟩
    exact one.set found nofun (fun _ _ => rfl) (Nat.le_refl _) fun _ => rfl
  | @begins block next plan pc request accounted =>
    rcases account_eq_some accounted with ⟨free, _, planEq, _, rfl⟩
    -- Nobody was sweeping, so the call that begins is the one that sweeps.
    have first : ∀ {otherId : ℕ} {other : DiskCall} {sweep : Sweep},
        (calls.set callId { call with pc := .walk { plan } })[otherId]? = some other →
          other.pc.sweep? = some sweep → otherId = callId ∧ sweep.plan = plan := by
      intro otherId other sweep otherFound sweeps
      rcases getElem?_set_cases otherFound with ⟨rfl, rfl⟩ | ⟨_, before⟩
      · cases sweeps
        exact ⟨rfl, rfl⟩
      · have claimed := one.claimed before sweeps
        rw [free] at claimed
        cases claimed
    refine ⟨fun _ _ _ => rfl, ?_, ?_⟩
    · intro firstId secondId firstCall secondCall firstFound secondFound sweep otherSweep
        firstSweeps secondSweeps
      rw [(first firstFound firstSweeps).1, (first secondFound secondSweeps).1]
    · intro otherId other otherFound sweep sweeps
      rw [(first otherFound sweeps).2, planEq]
      exact ⟨Nat.le_refl _, fun _ => rfl⟩
  | visits pc =>
    refine calm same ?_
    rintro sweep ⟨⟩
    rw [pc]
    exact ⟨_, rfl, Sweep.plan_visit _ _ _ _⟩
  | lingers pc | overflows pc | fits pc | trims pc | skips pc | settles pc =>
    refine calm same ?_
    rintro sweep ⟨⟩
    rw [pc]
    exact ⟨_, rfl, rfl⟩
  | ends pc =>
    -- The call that ends its sweep was the only one.
    refine one.set found nofun ?_ (Nat.le_refl _) fun _ => rfl
    intro otherId other sweep otherFound sweeps
    rcases getElem?_set_cases otherFound with ⟨rfl, rfl⟩ | ⟨different, before⟩
    · cases sweeps
    · exact absurd (one.only found before (by rw [pc]; rfl) sweeps) different
  | finishes _ books => exact calm books nofun
  | _ => exact calm same nofun

end OneSweep

/-! ### What a sweep and the store have counted -/

def sizes (candidates : List Candidate) : ℕ := (candidates.map Candidate.size).sum

/-- What the candidates count under a name. -/
def covering : List Candidate → Bytes → ℕ
  | [], _ => 0
  | candidate :: rest, path =>
      (if candidate.path = path then candidate.size else 0) + covering rest path

theorem covering_append (first second : List Candidate) (path : Bytes) :
    covering (first ++ second) path = covering first path + covering second path := by
  induction first with
  | nil => simp [covering]
  | cons candidate rest ih =>
    rw [List.cons_append, covering, covering, ih]
    omega

theorem covering_perm {first second : List Candidate} (same : first.Perm second) :
    covering first = covering second := by
  funext path
  induction same with
  | nil => rfl
  | cons _ _ ih => rw [covering, covering, ih]
  | swap =>
    simp only [covering]
    omega
  | trans _ _ firstIh secondIh => rw [firstIh, secondIh]

theorem sum_covering_le (names : Finset Bytes) (candidates : List Candidate) :
    ∑ path ∈ names, covering candidates path ≤ sizes candidates := by
  induction candidates with
  | nil => simp [covering, sizes]
  | cons candidate rest ih =>
    have own : ∑ path ∈ names, (if candidate.path = path then candidate.size else 0) ≤
        candidate.size := by
      rw [Finset.sum_ite_eq]
      split <;> omega
    simp only [covering, Finset.sum_add_distrib]
    simp only [sizes, List.map_cons, List.sum_cons] at ih ⊢
    omega

theorem sizes_perm {first second : List Candidate} (same : first.Perm second) :
    sizes first = sizes second :=
  (same.map Candidate.size).sum_eq

theorem ordered_perm (sweep : Sweep) : sweep.ordered.Perm sweep.candidates :=
  List.mergeSort_perm _ _

/-- The bytes the store has counted since the last sweep began, or will have to count. -/
def owed (store : DiskBlockStore) (calls : List DiskCall) : ℕ :=
  store.bytesSinceSweep + unaccounted calls

/-- Names a walk has come across, or may have missed because they appeared too late. -/
def passed (published : List Bytes) (sweep : Sweep) (path : Bytes) : Bool :=
  sweep.visited.contains path || published.contains path

/--
What stands is counted: by the candidates of the sweep, or by the store since the sweep
began; where no sweep is under way, by the total of the last one and by the store.
-/
def Tallies (disk : FileSystem StoredBlock) (store : DiskBlockStore) (calls : List DiskCall)
    (published : List Bytes) : DiskPc → Prop
  | .walk sweep =>
      sizes sweep.candidates ≤ sweep.total ∧
        disk.weigh (fun path => standing calls store.root path && passed published sweep path)
          (covering sweep.candidates) ≤ owed store calls
  | .trim sweep candidates =>
      sizes candidates ≤ sweep.total ∧
        disk.weigh (fun path => standing calls store.root path && true) (covering candidates) ≤
          owed store calls
  | .endSweep sweep =>
      disk.weigh (fun path => standing calls store.root path && true) (fun _ => 0) ≤
        sweep.total + owed store calls
  | _ =>
      disk.weigh (fun path => standing calls store.root path && true) (fun _ => 0) ≤
        store.knownBytes + owed store calls

/-- The tally of the sweep whose total will be taken over, or of the last one that was. -/
structure Accounted (disk : FileSystem StoredBlock) (store : DiskBlockStore)
    (calls : List DiskCall) (published : List Bytes) : Prop where
  sweeping : ∀ {callId : ℕ} {call : DiskCall}, calls[callId]? = some call →
    ∀ {sweep : Sweep}, call.pc.sweep? = some sweep → sweep.plan.epoch = store.epoch →
      Tallies disk store calls published call.pc
  resting : (∀ {callId : ℕ} {call : DiskCall}, calls[callId]? = some call →
    ∀ {sweep : Sweep}, call.pc.sweep? = some sweep → sweep.plan.epoch ≠ store.epoch) →
      Tallies disk store calls published .start

section Tallies

variable {disk next : FileSystem StoredBlock} {store nextStore : DiskBlockStore}
  {calls nextCalls : List DiskCall} {published more : List Bytes} {callId : ℕ} {call : DiskCall}
  {pc : DiskPc} {process : DiskProcess} {choice : Choice} {outcome : Outcome} {sweep : Sweep}

theorem Tallies.step (tallies : Tallies disk store calls published pc)
    (root : nextStore.root = store.root) (known : nextStore.knownBytes = store.knownBytes)
    (keeps : ∀ {select selectNext : Bytes → Bool},
      (∀ path, path ∉ more → selectNext path = true → select path = true) →
        ∀ cover, next.weigh (fun path => standing nextCalls store.root path && selectNext path)
          cover + owed store calls ≤
            disk.weigh (fun path => standing calls store.root path && select path) cover +
              owed nextStore nextCalls) :
    Tallies next nextStore nextCalls (more ++ published) pc := by
  have all := @keeps (fun _ => true) (fun _ => true) fun _ _ same => same
  cases pc with
  | walk sweep =>
    rcases tallies with ⟨covered, counted⟩
    have some_ := @keeps (passed published sweep) (passed (more ++ published) sweep) (by
      intro path old selected
      simpa [passed, old] using selected) (covering sweep.candidates)
    refine ⟨covered, ?_⟩
    rw [root]
    omega
  | trim sweep candidates =>
    rcases tallies with ⟨covered, counted⟩
    have := all (covering candidates)
    refine ⟨covered, ?_⟩
    rw [root]
    omega
  | _ =>
    have := all fun _ => 0
    simp only [Tallies, root, known] at tallies ⊢
    omega

theorem Accounted.step (accounted : Accounted disk store calls published)
    (quiet : call.pc.sweep? = none) (still : pc.sweep? = none)
    (found : calls[callId]? = some call) (root : nextStore.root = store.root)
    (known : nextStore.knownBytes = store.knownBytes) (epoch : nextStore.epoch = store.epoch)
    (keeps : ∀ {select selectNext : Bytes → Bool},
      (∀ path, path ∉ more → selectNext path = true → select path = true) →
        ∀ cover, next.weigh (fun path => standing (calls.set callId { call with pc }) store.root
          path && selectNext path) cover + owed store calls ≤
            disk.weigh (fun path => standing calls store.root path && select path) cover +
              owed nextStore (calls.set callId { call with pc })) :
    Accounted next nextStore (calls.set callId { call with pc }) (more ++ published) := by
  have before : ∀ {otherId : ℕ} {other : DiskCall},
      (calls.set callId { call with pc })[otherId]? = some other →
        ∀ {sweep : Sweep}, other.pc.sweep? = some sweep → calls[otherId]? = some other := by
    intro otherId other otherFound sweep sweeps
    rcases getElem?_set_cases otherFound with ⟨rfl, rfl⟩ | ⟨_, same⟩
    · rw [still] at sweeps
      cases sweeps
    · exact same
  refine ⟨?_, ?_⟩
  · intro otherId other otherFound sweep sweeps current
    rw [epoch] at current
    exact (accounted.sweeping (before otherFound sweeps) sweeps current).step root known keeps
  · intro stale
    refine (accounted.resting ?_).step root known keeps
    intro otherId other otherFound sweep sweeps
    rw [← epoch]
    have different : otherId ≠ callId := by
      rintro rfl
      rw [found, Option.some.injEq] at otherFound
      rw [← otherFound, quiet] at sweeps
      cases sweeps
    have kept : (calls.set callId { call with pc })[otherId]? = some other := by
      rwa [List.getElem?_set_ne different.symm]
    exact stale kept sweeps

theorem Accounted.shrink (accounted : Accounted disk process.store calls published)
    (quiet : call.pc.sweep? = none) (still : pc.sweep? = none)
    (found : calls[callId]? = some call) (books : process.store.SameBooks nextStore)
    (settled : call.pc ≠ .account) (settles : pc ≠ .account)
    (shrinks : Shrinks process.store.root disk calls next (calls.set callId { call with pc })) :
    Accounted next nextStore (calls.set callId { call with pc }) published := by
  rcases books with ⟨_, _, rfl⟩
  refine @Accounted.step _ _ _ _ _ _ [] _ _ _ accounted quiet still found rfl rfl rfl ?_
  intro select selectNext implied cover
  have lighter := shrinks.weigh_le (fun path => implied path (by simp)) cover
  simp only [owed, unaccounted_set_of_ne found settled settles]
  omega

/-- The last total counts where the one sweep that is under way is of another epoch. -/
theorem Accounted.rested (accounted : Accounted disk store calls published)
    (one : OneSweep store calls) (found : calls[callId]? = some call)
    (sweeps : call.pc.sweep? = some sweep) (stale : sweep.plan.epoch ≠ store.epoch) :
    Tallies disk store calls published .start := by
  refine accounted.resting ?_
  intro otherId other otherFound otherSweep otherSweeps
  obtain rfl := one.only found otherFound sweeps otherSweeps
  obtain rfl := Option.some.inj (found.symm.trans otherFound)
  obtain rfl := Option.some.inj (sweeps.symm.trans otherSweeps)
  exact stale

theorem tallies_set (found : calls[callId]? = some call) (quiet : call.pc.writing? = none)
    (stays : pc.writing? = none) (settled : call.pc ≠ .account) (settles : pc ≠ .account)
    (place : DiskPc) :
    Tallies disk store (calls.set callId { call with pc }) published place ↔
      Tallies disk store calls published place := by
  have stands : standing (calls.set callId { call with pc }) store.root =
      standing calls store.root := standing_set_of_quiet found quiet stays
  have owes : owed store (calls.set callId { call with pc }) = owed store calls := by
    rw [owed, unaccounted_set_of_ne found settled settles, owed]
  cases place <;> simp only [Tallies, stands, owes]

theorem Accounted.sweeps (accounted : Accounted disk store calls published)
    (one : OneSweep store calls) (found : calls[callId]? = some call) {after : Sweep}
    {before : DiskPc} (place : call.pc = before) (sweeps : before.sweep? = some sweep)
    (still : pc.sweep? = some after) (plan : after.plan = sweep.plan)
    (tallies : sweep.plan.root = store.root → Tallies disk store calls published before →
      Tallies next store calls published pc)
    (lighter : ∀ path, next.lengthAt path ≤ disk.lengthAt path) :
    Accounted next store (calls.set callId { call with pc }) published := by
  subst place
  have anywhere : ∀ place, Tallies next store (calls.set callId { call with pc }) published place ↔
      Tallies next store calls published place := by
    rcases DiskPc.of_sweeping sweeps with ⟨quiet, settled⟩
    rcases DiskPc.of_sweeping still with ⟨stays, settles⟩
    exact tallies_set found quiet stays settled settles
  refine ⟨?_, ?_⟩
  · intro otherId other otherFound otherSweep otherSweeps current
    rcases getElem?_set_cases otherFound with ⟨rfl, rfl⟩ | ⟨different, before⟩
    · obtain rfl : after = otherSweep := Option.some.inj (still.symm.trans otherSweeps)
      rw [plan] at current
      exact (anywhere pc).mpr
        (tallies ((one.planned found sweeps).2 current) (accounted.sweeping found sweeps current))
    · exact absurd (one.only found before sweeps otherSweeps) different
  · intro stale
    have own : (calls.set callId { call with pc })[callId]? = some { call with pc } :=
      List.getElem?_set_self (List.getElem?_eq_some_iff.mp found).1
    have rested := accounted.rested one found sweeps (plan ▸ stale own still)
    rw [anywhere]
    refine Nat.le_trans (weigh_le fun path => ?_) rested
    have := lighter path
    simp only [uncovered]
    split
    · omega
    · exact Nat.le_refl _

/-- What a list of candidates covers is at most what it counts. -/
theorem weigh_le_sizes (select : Bytes → Bool) (candidates : List Candidate) :
    disk.weigh select (fun _ => 0) ≤ disk.weigh select (covering candidates) + sizes candidates :=
  (weigh_le_weigh_add _).trans
    (Nat.add_le_add_left (sum_covering_le disk.paths candidates) _)

/-- The walk comes across a file: from then on it is a candidate, or it is gone. -/
theorem Tallies.visit {path : Bytes}
    (tallies : Tallies disk store calls published (.walk sweep)) :
    Tallies (if (sweep.visit path (disk.fileAt path) disk.now).1 then disk.remove path else disk)
      store calls published (.walk (sweep.visit path (disk.fileAt path) disk.now).2) := by
  rcases tallies with ⟨covered, counted⟩
  -- Every other name is weighed as before.
  have lighter : ∀ (next : FileSystem StoredBlock) (after : Sweep),
      next.uncovered (fun name => standing calls store.root name && passed published after name)
        (covering after.candidates) path = 0 →
      (∀ name, name ≠ path → next.lengthAt name ≤ disk.lengthAt name ∧
        passed published after name = passed published sweep name ∧
        covering after.candidates name = covering sweep.candidates name) →
      next.weigh (fun name => standing calls store.root name && passed published after name)
        (covering after.candidates) ≤ owed store calls := by
    intro next after here elsewhere
    refine Nat.le_trans (weigh_le fun name => ?_) counted
    by_cases same : name = path
    · rw [same, here]
      exact Nat.zero_le _
    · rcases elsewhere name same with ⟨shorter, alike, covers⟩
      simp only [uncovered, alike, covers]
      split
      · omega
      · exact Nat.le_refl _
  simp only [Sweep.visit]
  cases present : disk.fileAt path with
  | none =>
    refine ⟨covered, lighter disk _ ?_ ?_⟩
    · simp [uncovered, lengthAt, present]
    · intro name different
      simp [passed, different]
  | some file =>
    dsimp only
    split
    · refine ⟨covered, lighter (disk.remove path) _ ?_ ?_⟩
      · simp [uncovered, lengthAt, fileAt_remove]
      · intro name different
        exact ⟨lengthAt_remove_le disk path name, by simp [passed, different], rfl⟩
    · refine ⟨?_, lighter disk _ ?_ ?_⟩
      · simp only [sizes, List.map_append, List.sum_append] at covered ⊢
        simpa using covered
      · simp [uncovered, lengthAt_of_fileAt present, covering_append,
          covering]
      · intro name different
        refine ⟨Nat.le_refl _, by simp [passed, different], ?_⟩
        simp [covering_append, covering, different.symm]

/-- The walk is over: every name that stands is one it has come across or may have missed. -/
theorem Tallies.walked (root : sweep.plan.root = store.root)
    (tallies : Tallies disk store calls published (.walk sweep))
    (walked : ∀ path ∈ disk.paths, standing calls sweep.plan.root path = true →
      passed published sweep path = true) :
    disk.weigh (fun path => standing calls store.root path && true) (covering sweep.candidates) ≤
      owed store calls := by
  refine Nat.le_trans (weigh_le fun path => ?_) tallies.2
  simp only [uncovered, Bool.and_true]
  split
  · rename_i stands
    by_cases present : path ∈ disk.paths
    · rw [root] at walked
      rw [if_pos (by rw [stands, walked path present stands]; rfl)]
    · rw [mem_paths, not_exists] at present
      rw [lengthAt_of_absent (Option.eq_none_iff_forall_ne_some.mpr present)]
      omega
  · exact Nat.zero_le _

theorem Tallies.drop {candidate : Candidate} {rest : List Candidate}
    (tallies : Tallies disk store calls published (.trim sweep (candidate :: rest)))
    (gone : next.lengthAt candidate.path = 0)
    (shorter : ∀ path, next.lengthAt path ≤ disk.lengthAt path) :
    next.weigh (fun path => standing calls store.root path && true) (covering rest) ≤
      owed store calls := by
  refine Nat.le_trans (weigh_le fun path => ?_) tallies.2
  simp only [uncovered, covering]
  split
  · by_cases same : candidate.path = path
    · rw [← same, gone]
      omega
    · have := shorter path
      rw [if_neg same]
      omega
  · exact Nat.le_refl _

theorem Accounted.publish (accounted : Accounted disk store calls published)
    (unshared : Unshared disk calls) (found : calls[callId]? = some call) {path temporary : Bytes}
    {file : ℕ} (pc : call.pc = .rename path temporary file)
    (present : (disk.find temporary).isSome = true) :
    Accounted (disk.rename temporary path) store (calls.set callId { call with pc := .account })
      (path :: published) := by
  rcases Option.isSome_iff_exists.mp present with ⟨other, named⟩
  obtain rfl := (unshared.files found (by rw [pc]; rfl)).named named
  refine @Accounted.step _ _ _ _ _ _ [path] _ _ _ accounted (by rw [pc]; rfl) rfl found rfl rfl rfl ?_
  intro select selectNext implied cover
  have gained := @Unshared.weigh_publish store.root _ _ _ _ unshared found _ _ _ pc named select
    selectNext (fun name different => implied name (by simpa using different)) cover
  simp only [owed]
  omega

theorem Accounted.account (accounted : Accounted disk store calls published)
    (found : calls[callId]? = some call) {block : StoredBlock} (pc : call.pc = .account)
    (request : call.request.block? = some block) (result : DiskResult) :
    Accounted disk (store.counted block.encoded.length)
      (calls.set callId { call with pc := .returned result }) published := by
  refine @Accounted.step _ _ _ _ _ _ [] _ _ _ accounted (by rw [pc]; rfl) rfl found rfl rfl rfl ?_
  intro select selectNext implied cover
  have settles := unaccounted_set found (.returned result)
  have size : call.unaccounted = block.encoded.length := by
    simp [DiskCall.unaccounted, pc, request]
  have nothing : { call with pc := .returned result }.unaccounted = 0 := rfl
  have shrinks : Shrinks store.root disk calls disk
      (calls.set callId { call with pc := .returned result }) :=
    shrinks_quiet found (by rw [pc]; rfl) rfl fun _ => Nat.le_refl _
  have lighter := shrinks.weigh_le (fun path => implied path (by simp)) cover
  simp only [owed, counted]
  omega

theorem accounted_begin (one : OneSweep store calls) (free : store.sweeping = false)
    {plan : SweepPlan} (planned : plan.epoch = nextStore.epoch)
    (found : calls[callId]? = some call) :
    Accounted disk nextStore (calls.set callId { call with pc := .walk { plan } }) [] := by
  have own : (calls.set callId { call with pc := .walk { plan } })[callId]? =
      some { call with pc := .walk { plan } } :=
    List.getElem?_set_self (List.getElem?_eq_some_iff.mp found).1
  refine ⟨?_, fun stale => absurd planned (stale own rfl)⟩
  intro otherId other otherFound sweep sweeps _
  rcases getElem?_set_cases otherFound with ⟨rfl, rfl⟩ | ⟨_, before⟩
  · refine ⟨Nat.le_refl _, ?_⟩
    simp [passed, weigh, uncovered]
  · have claimed := one.claimed before sweeps
    rw [free] at claimed
    cases claimed

/-- The total of a sweep is taken over, unless it is of another epoch. -/
theorem Accounted.end (accounted : Accounted disk store calls published)
    (one : OneSweep store calls) (found : calls[callId]? = some call)
    (pc : call.pc = .endSweep sweep) (result : DiskResult) :
    Accounted disk (store.endSweep sweep) (calls.set callId { call with pc := .returned result })
      published := by
  have sweeps : call.pc.sweep? = some sweep := by rw [pc]; rfl
  have shrinks : Shrinks store.root disk calls disk
      (calls.set callId { call with pc := .returned result }) :=
    shrinks_quiet found (by rw [pc]; rfl) rfl fun _ => Nat.le_refl _
  have lighter := shrinks.weigh_le (fun _ (same : true = true) => same) fun _ => 0
  have settled : unaccounted (calls.set callId { call with pc := .returned result }) =
      unaccounted calls :=
    unaccounted_set_of_ne found (by rw [pc]; nofun) nofun
  refine ⟨?_, fun _ => ?_⟩
  · intro otherId other otherFound otherSweep otherSweeps _
    rcases getElem?_set_cases otherFound with ⟨rfl, rfl⟩ | ⟨different, before⟩
    · cases otherSweeps
    · exact absurd (one.only found before sweeps otherSweeps) different
  · simp only [Tallies, owed, settled, endSweep]
    split
    · rename_i current
      have tallies := accounted.sweeping found sweeps current.symm
      rw [pc] at tallies
      simp only [Tallies, owed] at tallies
      omega
    · rename_i stale
      have rested := accounted.rested one found sweeps (Ne.symm stale)
      simp only [Tallies, owed] at rested
      omega

theorem accounted_clear (one : OneSweep store calls) (result : DiskResult) :
    Accounted (disk.removeUnder (store.root ++ [pathSeparator])) store.clear
      (calls.set callId { call with pc := .returned result }) published := by
  refine ⟨?_, fun _ => ?_⟩
  · intro otherId other otherFound sweep sweeps current
    rcases getElem?_set_cases otherFound with ⟨rfl, rfl⟩ | ⟨_, before⟩
    · cases sweeps
    · have bounded := (one.planned before sweeps).1
      simp only [DiskBlockStore.clear] at current
      omega
  · have nothing : (disk.removeUnder (store.root ++ [pathSeparator])).weigh
        (fun path => standing (calls.set callId { call with pc := .returned result }) store.root
          path && true) (fun _ => 0) = 0 := by
      refine Finset.sum_eq_zero fun path _ => ?_
      simp only [uncovered, Bool.and_true]
      split
      · rename_i stands
        have under := (Bool.and_eq_true_iff.mp stands).1
        simp only [isUnder] at under
        simp [lengthAt, fileAt_removeUnder, under]
      · rfl
    simp only [Tallies, DiskBlockStore.clear, nothing]
    exact Nat.zero_le _

/-- The entries published since a sweep began, after a step from one place to another. -/
def publishedSince (before after : DiskPc) (published : List Bytes) : List Bytes :=
  match before, after with
  | .rename path _ _, .account => path :: published
  | .account, .walk _ => []
  | _, _ => published

theorem publishedSince_of_offBooks {before : DiskPc} (off : before.offBooks = true)
    (after : DiskPc) : publishedSince before after published = published := by
  cases before <;> first | rfl | cases off

/-- A call that moves on off the books, while at most names are removed. -/
theorem Accounted.quiet (accounted : Accounted disk process.store calls published)
    (found : calls[callId]? = some call) (books : process.store.SameBooks nextStore)
    (before : call.pc.offBooks = true) (after : pc.offBooks = true)
    (shorter : ∀ path, next.lengthAt path ≤ disk.lengthAt path) :
    Accounted next nextStore (calls.set callId { call with pc })
      (publishedSince call.pc pc published) := by
  rw [publishedSince_of_offBooks before]
  exact accounted.shrink (DiskPc.sweep?_of_offBooks before) (DiskPc.sweep?_of_offBooks after) found
    books (DiskPc.ne_account_of_offBooks before) (DiskPc.ne_account_of_offBooks after)
    (shrinks_quiet found (DiskPc.writing?_of_offBooks before) (DiskPc.writing?_of_offBooks after)
      shorter)

theorem Accounted.transition (accounted : Accounted disk process.store calls published)
    (unshared : Unshared disk calls) (one : OneSweep process.store calls)
    (found : calls[callId]? = some call)
    (succeeds : (∀ sweep, call.pc ≠ .walk sweep) → choice.succeeds = true)
    (walked : ∀ sweep, call.pc = .walk sweep → choice.succeeds = false → ∀ path ∈ disk.paths,
      standing calls sweep.plan.root path = true → passed published sweep path = true)
    (unconfigured : ∀ options, call.request = .configure options → call.pc ≠ .start)
    (transition : DiskTransition disk process choice call outcome) :
    Accounted outcome.disk outcome.store (calls.set callId { call with pc := outcome.pc })
      (publishedSince call.pc outcome.pc published) := by
  have same := SameBooks.refl process.store
  cases transition with
  | moves books before _ after =>
    exact accounted.quiet found books before after fun _ => Nat.le_refl _
  | @removes path _ before _ after =>
    exact accounted.quiet found same before after (lengthAt_remove_le disk path)
  | opens before => exact accounted.quiet found same before rfl fun _ => Nat.le_refl _
  | reads pc | decodes pc =>
    exact accounted.quiet found same (by rw [pc]; rfl) rfl fun _ => Nat.le_refl _
  | finishes pc books =>
    exact accounted.quiet found books (by rw [pc]; rfl) rfl fun _ => Nat.le_refl _
  | configures pc request => exact absurd pc (unconfigured _ request)
  | clears pc =>
    rw [publishedSince_of_offBooks (by rw [pc]; rfl)]
    exact accounted_clear one .cleared
  | creates pc stores =>
    rw [publishedSince_of_offBooks (by rw [pc]; rfl)]
    exact accounted.shrink (by rw [pc]; rfl) rfl found ⟨_, _, rfl⟩ (by rw [pc]; simp) (by simp)
      (unshared.shrinks_create found (by rw [pc]; rfl) rfl _)
  | writes pc =>
    rw [pc]
    exact accounted.shrink (by rw [pc]; rfl) rfl found same (by rw [pc]; simp) (by simp)
      (unshared.shrinks_write found (by rw [pc]; rfl) rfl _)
  | completes pc =>
    rw [pc]
    exact accounted.shrink (by rw [pc]; rfl) rfl found same (by rw [pc]; simp) (by simp)
      (shrinks_complete found (by rw [pc]; rfl) rfl)
  | publishes pc present =>
    rw [pc]
    exact accounted.publish unshared found pc present
  | @fails temporary file target writes absent =>
    rcases DiskPc.of_writing writes with ⟨unswept, owing, elsewhere⟩
    have unchanged : publishedSince call.pc (.abandon temporary target) published = published := by
      cases call.pc <;> rfl
    rw [unchanged]
    exact accounted.shrink unswept rfl found same owing (by simp)
      (shrinks_fail found writes rfl (absent (succeeds elsewhere)))
  | rests pc request accountedFor =>
    rcases account_eq_none accountedFor with ⟨rfl, _⟩
    rw [pc]
    exact accounted.account found pc request _
  | begins pc request accountedFor =>
    rcases account_eq_some accountedFor with ⟨free, _, rfl, _, rfl⟩
    rw [pc]
    exact accounted_begin one free rfl found
  | lingers pc =>
    rw [pc]
    exact accounted.sweeps one found pc rfl rfl rfl (fun _ tallies => tallies) fun _ => Nat.le_refl _
  | @visits sweep path pc =>
    rw [pc]
    refine accounted.sweeps one found pc rfl rfl (sweep.plan_visit _ _ _)
      (fun _ tallies => tallies.visit) fun name => ?_
    dsimp only
    split
    · exact lengthAt_remove_le disk path name
    · exact Nat.le_refl _
  | @overflows sweep pc ended exceeds =>
    rw [pc]
    refine accounted.sweeps one found pc rfl rfl rfl ?_ fun _ => Nat.le_refl _
    intro root tallies
    rw [Tallies, sizes_perm (ordered_perm sweep), covering_perm (ordered_perm sweep)]
    exact ⟨tallies.1, tallies.walked root (walked sweep pc ended)⟩
  | @fits sweep pc ended =>
    rw [pc]
    refine accounted.sweeps one found pc rfl rfl rfl ?_ fun _ => Nat.le_refl _
    intro root tallies
    have counted := tallies.walked root (walked sweep pc ended)
    have covered := tallies.1
    have weighed := @weigh_le_sizes disk
      (fun path => standing calls process.store.root path && true) sweep.candidates
    simp only [Tallies]
    omega
  | @trims sweep candidate rest pc exceeds present =>
    rw [pc]
    refine accounted.sweeps one found pc rfl rfl rfl ?_ (lengthAt_remove_le disk candidate.path)
    intro _ tallies
    have covered := tallies.1
    refine ⟨?_, tallies.drop ?_ (lengthAt_remove_le disk candidate.path)⟩
    · simp only [sizes, List.map_cons, List.sum_cons, Sweep.trim] at covered ⊢
      omega
    · simp [lengthAt, fileAt_remove]
  | @skips sweep candidate rest pc exceeds absent =>
    rw [pc]
    refine accounted.sweeps one found pc rfl rfl rfl ?_ fun _ => Nat.le_refl _
    intro _ tallies
    have covered := tallies.1
    have gone : disk.find candidate.path = none := absent (succeeds (by rw [pc]; simp))
    refine ⟨?_, tallies.drop (lengthAt_of_absent gone) fun _ => Nat.le_refl _⟩
    simp only [sizes, List.map_cons, List.sum_cons] at covered ⊢
    omega
  | @settles sweep candidates pc enough =>
    rw [pc]
    refine accounted.sweeps one found pc rfl rfl rfl ?_ fun _ => Nat.le_refl _
    intro _ tallies
    rcases tallies with ⟨covered, counted⟩
    have weighed := @weigh_le_sizes disk
      (fun path => standing calls process.store.root path && true) candidates
    simp only [Tallies]
    omega
  | ends pc =>
    rw [pc]
    exact accounted.end one found pc _

end Tallies

/-! ### Runs -/

/-- The books of the one process are right. -/
structure SweepBooks (tier : WatchedTier) (process : DiskProcess) : Prop where
  alone : tier.system.processes = [process]
  unshared : Unshared tier.system.disk tier.system.calls
  one : OneSweep process.store tier.system.calls
  accounted : tier.begun = true ∨ tier.counted = true →
    Accounted tier.system.disk process.store tier.system.calls tier.published

namespace WatchedTier

variable {tier next : WatchedTier} {process : DiskProcess} {call : DiskCall} {callId : ℕ}
  {choice : Choice} {outcome : Outcome}

theorem published_note (tier : WatchedTier) (call : DiskCall) (enabled : Bool) (pc : DiskPc) :
    (tier.note call enabled pc).published = publishedSince call.pc pc tier.published := by
  cases at_ : call.pc with
  | start =>
    simp only [note, at_, publishedSince]
    split
    · rfl
    · split <;> rfl
    · rfl
  | rename | account => cases pc <;> simp only [note, at_, publishedSince]
  | _ => simp only [note, at_, publishedSince]

theorem recorded_note (enabled : Bool) {pc : DiskPc}
    (recorded : (tier.note call enabled pc).begun = true ∨
      (tier.note call enabled pc).counted = true) :
    (tier.begun = true ∨ tier.counted = true) ∧
        (∀ options, call.request = .configure options → call.pc ≠ .start) ∨
      (call.pc = .account ∧ ∃ sweep, pc = .walk sweep) ∨
      (call.pc = .start ∧ call.request = .clear ∧ enabled = true) := by
  cases at_ : call.pc with
  | start =>
    simp only [note, at_] at recorded
    cases request : call.request with
    | configure options => simp [request] at recorded
    | clear =>
      simp only [request] at recorded
      split at recorded
      · rename_i on
        exact Or.inr (Or.inr ⟨rfl, rfl, on⟩)
      · exact Or.inl ⟨recorded, nofun⟩
    | load | store =>
      simp only [request] at recorded
      exact Or.inl ⟨recorded, nofun⟩
  | account =>
    cases place : pc with
    | walk sweep => exact Or.inr (Or.inl ⟨rfl, sweep, rfl⟩)
    | _ =>
      simp only [note, at_, place] at recorded
      exact Or.inl ⟨recorded, fun _ _ => nofun⟩
  | endSweep sweep =>
    simp only [note, at_, Bool.or_eq_true] at recorded
    exact Or.inl ⟨by tauto, fun _ _ => nofun⟩
  | rename path temporary file =>
    refine Or.inl ⟨?_, fun _ _ => nofun⟩
    cases place : pc <;> simpa only [note, at_, place] using recorded
  | _ =>
    simp only [note, at_] at recorded
    exact Or.inl ⟨recorded, fun _ _ => nofun⟩

theorem undisturbed_step (found : tier.system.calls[callId]? = some call)
    (processFound : tier.system.processes[call.process]? = some process)
    (allowed : tier.undisturbed (.step callId choice) = true) :
    ((∀ sweep, call.pc ≠ .walk sweep) → choice.succeeds = true) ∧
      (∀ {path : Bytes}, call.pc = .openTemporary path →
        held tier.system.calls
          (temporaryFor path process.nonce process.store.tempCounter) = false) ∧
      ∀ sweep, call.pc = .walk sweep → choice.succeeds = false → ∀ path ∈ tier.system.disk.paths,
        standing tier.system.calls sweep.plan.root path = true →
          passed tier.published sweep path = true := by
  simp only [undisturbed, found, Option.all_some] at allowed
  cases at_ : call.pc with
  | openTemporary path =>
    simp only [at_, processFound, Option.all_some, Bool.and_eq_true, Bool.not_eq_true'] at allowed
    refine ⟨fun _ => allowed.1, ?_, nofun⟩
    rintro _ ⟨⟩
    exact allowed.2
  | walk sweep =>
    refine ⟨fun elsewhere => absurd rfl (elsewhere sweep), nofun, ?_⟩
    rintro _ ⟨⟩ ended path present stands
    simp only [at_, ended, Bool.false_or, List.all_eq_true, Bool.or_eq_true] at allowed
    have listed : path ∈ tier.system.disk.names.keys := List.mem_toFinset.mp present
    have visited := allowed path listed
    simpa [passed, stands] using visited
  | _ =>
    simp only [at_] at allowed
    exact ⟨fun _ => allowed, nofun, nofun⟩

theorem ledger_of_step (ledger : SweepBooks tier process)
    (found : tier.system.calls[callId]? = some call)
    (processFound : tier.system.processes[call.process]? = some process)
    (allowed : tier.undisturbed (.step callId choice) = true)
    (advanced : advance tier.system.disk process choice call = some outcome) :
    SweepBooks
      { tier.note call process.store.enabled outcome.pc with
        system := tier.system.after callId call process outcome }
      { process with store := outcome.store } := by
  rcases undisturbed_step found processFound allowed with ⟨succeeds, free, walked⟩
  have transition := transition_of_advance (ledger.unshared.routed found) advanced
  have first : call.process = 0 := by
    rw [ledger.alone] at processFound
    by_contra other
    rw [List.getElem?_eq_none (by simp; omega)] at processFound
    cases processFound
  refine ⟨?_, ledger.unshared.transition found free transition, ledger.one.transition found transition,
    ?_⟩
  · simp [DiskSystem.after, ledger.alone, first]
  · intro recorded
    dsimp only
    rw [published_note]
    rcases recorded_note _ recorded with
      ⟨before, unconfigured⟩ | ⟨pc, sweep, place⟩ | ⟨pc, request, enabled⟩
    · exact (ledger.accounted before).transition ledger.unshared ledger.one found succeeds walked
        unconfigured transition
    · cases transition with
      | begins _ _ accountedFor =>
        rcases account_eq_some accountedFor with ⟨idle, _, rfl, _, rfl⟩
        rw [pc]
        exact accounted_begin ledger.one idle rfl found
      | _ => simp_all [DiskPc.offBooks]
    · have cleared : outcome = startClear tier.system.disk process := by
        simpa [advance, pc, request, start] using advanced.symm
      subst cleared
      simp only [startClear, enabled]
      rw [publishedSince_of_offBooks (by rw [pc]; rfl)]
      exact accounted_clear ledger.one .cleared

theorem ledger_of_call (ledger : SweepBooks tier process) (caller : ℕ) (request : DiskRequest) :
    SweepBooks
      { tier with
        system :=
          { tier.system with calls := tier.system.calls ++ [{ process := caller, request }] } }
      process := by
  have busy : ∀ {callId : ℕ} {call : DiskCall},
      (tier.system.calls ++ [{ process := caller, request }])[callId]? = some call →
        ∀ {sweep : Sweep}, call.pc.sweep? = some sweep →
          tier.system.calls[callId]? = some call := by
    intro callId call found sweep sweeps
    rcases getElem?_append_singleton found with before | ⟨_, rfl⟩
    · exact before
    · cases sweeps
  refine ⟨ledger.alone, ledger.unshared.append caller request, ⟨?_, ?_, ?_⟩, ?_⟩
  · intro callId call found sweep sweeps
    exact ledger.one.claimed (busy found sweeps) sweeps
  · intro callId otherId call other found otherFound sweep otherSweep sweeps otherSweeps
    exact ledger.one.only (busy found sweeps) (busy otherFound otherSweeps) sweeps otherSweeps
  · intro callId call found sweep sweeps
    exact ledger.one.planned (busy found sweeps) sweeps
  · intro recorded
    have accounted := ledger.accounted recorded
    have same : ∀ place, Tallies tier.system.disk process.store
        (tier.system.calls ++ [{ process := caller, request }]) tier.published place ↔
          Tallies tier.system.disk process.store tier.system.calls tier.published place := by
      intro place
      cases place <;> simp only [Tallies, owed, standing_append, unaccounted_append]
    refine ⟨?_, ?_⟩
    · intro callId call found sweep sweeps current
      exact (same _).mpr (accounted.sweeping (busy found sweeps) sweeps current)
    · intro stale
      refine (same _).mpr (accounted.resting ?_)
      intro callId call found sweep sweeps
      exact stale (getElem?_append_of_some _ found) sweeps

def Kept (tier : WatchedTier) : Prop := ∃ process, SweepBooks tier process

theorem kept_step {event : DiskEvent} (kept : tier.Kept)
    (allowed : tier.undisturbed event = true) (stepped : tier.step event = some next) :
    next.Kept := by
  rcases kept with ⟨process, ledger⟩
  cases event with
  | step callId choice =>
    rcases Option.bind_eq_some_iff.mp stepped with ⟨call, found, stepped⟩
    rcases Option.bind_eq_some_iff.mp stepped with ⟨owner, ownerFound, stepped⟩
    rcases Option.map_eq_some_iff.mp stepped with ⟨outcome, advanced, rfl⟩
    obtain rfl : process = owner := by
      have mem := List.mem_of_getElem? ownerFound
      rw [ledger.alone, List.mem_singleton] at mem
      exact mem.symm
    exact ⟨_, ledger_of_step ledger found ownerFound allowed advanced⟩
  | call callProcess request =>
    rcases Option.map_eq_some_iff.mp stepped with ⟨after, begun, rfl⟩
    rcases Option.bind_eq_some_iff.mp begun with ⟨owner, _, begun⟩
    split at begun
    · cases begun
      exact ⟨process, ledger_of_call ledger callProcess request⟩
    · cases begun
  | tick seconds =>
    cases stepped
    refine ⟨process, ledger.alone, ledger.unshared.dropNames rfl id, ledger.one, fun recorded => ?_⟩
    have accounted := ledger.accounted recorded
    -- Neither names nor lengths depend on the time.
    have same : ∀ place, Tallies { tier.system.disk with now := tier.system.disk.now + seconds }
        process.store tier.system.calls tier.published place ↔
          Tallies tier.system.disk process.store tier.system.calls tier.published place := by
      intro place
      cases place <;> exact Iff.rfl
    exact ⟨fun found _ sweeps current => (same _).mpr (accounted.sweeping found sweeps current),
      fun stale => (same _).mpr (accounted.resting stale)⟩
  | _ => cases allowed

theorem ledger_opening (now : ℕ) (contents : List (Bytes × File StoredBlock)) (nonce : UInt64) :
    SweepBooks (opening now contents nonce) { nonce } where
  alone := rfl
  unshared := ⟨tidy_holding now contents, by simp [opening], by simp [opening],
    by simp [opening]⟩
  one := ⟨by simp [opening], by simp [opening], by simp [opening]⟩
  accounted := by simp [opening]

end WatchedTier

def entryBytes (disk : FileSystem StoredBlock) (root : Bytes) : ℕ :=
  disk.weigh (fun path => isEntryPath path && isUnder root path) fun _ => 0

/-- An entry is no temporary, so nobody is writing to it. -/
theorem Unshared.entryBytes_le {disk : FileSystem StoredBlock} {calls : List DiskCall}
    (unshared : Unshared disk calls) (root : Bytes) :
    entryBytes disk root ≤ disk.weigh (fun path => standing calls root path && true) fun _ => 0 := by
  refine weigh_le fun path => ?_
  simp only [uncovered, Bool.and_true, Bool.and_eq_true]
  split
  · rename_i counts
    have stands : standing calls root path = true := by
      rw [standing, counts.2, Bool.true_and, Bool.not_eq_true', Bool.eq_false_iff]
      intro inUse
      rcases held_eq_true_iff.mp inUse with ⟨callId, call, file, found, writes⟩
      have unpublished := (unshared.files found writes).unpublished
      rw [counts.1] at unpublished
      cases unpublished
    rw [if_pos stands]
  · exact Nat.zero_le _

/--
In every state that one process reaches without file-system errors at most one sweep is
under way.  Where none is, and a sweep has run from its begin to its end since the last
configuration or the directory was cleared since, the store has counted at least the
bytes of the entries, less those it has yet to account for.
-/
theorem sweeps_keep_count {now : ℕ} {contents : List (Bytes × File StoredBlock)} {nonce : UInt64}
    {events : List DiskEvent} {tier : WatchedTier}
    (undisturbed : AllowedRun WatchedTier.step (fun tier event => tier.undisturbed event = true)
      (.opening now contents nonce) events)
    (reached : run WatchedTier.step (.opening now contents nonce) events = some tier) :
    (∀ {firstId secondId : ℕ} {first second : DiskCall},
      tier.system.calls[firstId]? = some first → tier.system.calls[secondId]? = some second →
        first.pc.sweep?.isSome = true → second.pc.sweep?.isSome = true → firstId = secondId) ∧
    ∀ process ∈ tier.system.processes,
      (∀ call ∈ tier.system.calls, call.pc.sweep? = none) → tier.counted = true →
        entryBytes tier.system.disk process.store.root ≤
          process.store.knownBytes + process.store.bytesSinceSweep +
            unaccounted tier.system.calls := by
  have kept : tier.Kept :=
    invariant_of_allowedRun WatchedTier.kept_step
      ⟨_, WatchedTier.ledger_opening now contents nonce⟩ undisturbed reached
  rcases kept with ⟨process, ledger⟩
  refine ⟨?_, ?_⟩
  · intro firstId secondId first second firstFound secondFound firstSweeps secondSweeps
    rcases Option.isSome_iff_exists.mp firstSweeps with ⟨sweep, sweeps⟩
    rcases Option.isSome_iff_exists.mp secondSweeps with ⟨other, otherSweeps⟩
    exact ledger.one.only secondFound firstFound otherSweeps sweeps
  · intro owner ownerMem idle counted
    rw [ledger.alone, List.mem_singleton] at ownerMem
    subst ownerMem
    have rested := (ledger.accounted (Or.inr counted)).resting (by
      intro callId call found sweep sweeps
      rw [idle call (List.mem_of_getElem? found)] at sweeps
      cases sweeps)
    have entries := ledger.unshared.entryBytes_le owner.store.root
    simp only [Tallies, owed] at rested
    omega

/-! A block is stored and the directory swept, with or without a configuration in between. -/

def sweptSample (between : List DiskEvent) : List DiskEvent :=
  [DiskEvent.call 0 (.configure { directory := bytes "/c" }), DiskEvent.step 0 {},
    DiskEvent.call 0 (.store sampleKey true (some (bytes "A")))] ++
    List.replicate 7 (DiskEvent.step 1 { count := 100 }) ++ between ++
    [DiskEvent.step 1 { path := pathFor (bytes "/c/blocks-v1") (nameFor (digestOf sampleKey)) },
      DiskEvent.step 1 { succeeds := false }, DiskEvent.step 1 {}]

theorem sweeps_keep_count_sample :
    ∃ tier process, run WatchedTier.step (.opening 0 [] 1) (sweptSample []) = some tier ∧
      process ∈ tier.system.processes ∧ tier.counted = true ∧
      0 < entryBytes tier.system.disk process.store.root ∧
      entryBytes tier.system.disk process.store.root ≤
        process.store.knownBytes + process.store.bytesSinceSweep +
          unaccounted tier.system.calls := by
  have undisturbed : AllowedRun WatchedTier.step (fun tier event => tier.undisturbed event = true)
      (.opening 0 [] 1) (sweptSample []) := by
    decide +kernel
  have observed : ((run WatchedTier.step (.opening 0 [] 1) (sweptSample [])).bind fun tier =>
      tier.system.processes[0]?.map fun process =>
        (tier.counted, tier.system.calls.all fun call => call.pc.sweep? == none,
          decide (0 < entryBytes tier.system.disk process.store.root))) =
      some (true, true, true) := by
    decide +kernel
  rcases Option.bind_eq_some_iff.mp observed with ⟨tier, reached, observed⟩
  rcases Option.map_eq_some_iff.mp observed with ⟨process, found, seen⟩
  simp only [Prod.mk.injEq, List.all_eq_true, beq_iff_eq, decide_eq_true_eq] at seen
  rcases seen with ⟨counted, idle, entries⟩
  exact ⟨tier, process, reached, List.mem_of_getElem? found, counted, entries,
    (sweeps_keep_count undisturbed reached).2 process (List.mem_of_getElem? found) idle counted⟩

/--
A configuration during a walk: the sweep ends after it, its total is not taken over, and
the store knows nothing of the entry that is there.
-/
theorem sweep_of_old_configuration :
    AllowedRun WatchedTier.step (fun tier event => tier.undisturbed event = true)
      (.opening 0 [] 1)
      (sweptSample [.call 0 (.configure { directory := bytes "/c" }), .step 2 {}]) ∧
    ∃ tier process, run WatchedTier.step (.opening 0 [] 1)
        (sweptSample [.call 0 (.configure { directory := bytes "/c" }), .step 2 {}]) = some tier ∧
      process ∈ tier.system.processes ∧ (∀ call ∈ tier.system.calls, call.pc.sweep? = none) ∧
      tier.completed = true ∧
      process.store.knownBytes + process.store.bytesSinceSweep +
        unaccounted tier.system.calls < entryBytes tier.system.disk process.store.root := by
  refine ⟨by decide +kernel, ?_⟩
  have observed : ((run WatchedTier.step (.opening 0 [] 1)
      (sweptSample [.call 0 (.configure { directory := bytes "/c" }), .step 2 {}])).bind fun tier =>
      tier.system.processes[0]?.map fun process =>
        (tier.completed, tier.system.calls.all fun call => call.pc.sweep? == none,
          decide (process.store.knownBytes + process.store.bytesSinceSweep +
            unaccounted tier.system.calls < entryBytes tier.system.disk process.store.root))) =
      some (true, true, true) := by
    decide +kernel
  rcases Option.bind_eq_some_iff.mp observed with ⟨tier, reached, observed⟩
  rcases Option.map_eq_some_iff.mp observed with ⟨process, found, seen⟩
  simp only [Prod.mk.injEq, List.all_eq_true, beq_iff_eq, decide_eq_true_eq] at seen
  rcases seen with ⟨completed, idle, lost⟩
  exact ⟨tier, process, reached, List.mem_of_getElem? found, idle, completed, lost⟩

end UsdAsset.Cache
