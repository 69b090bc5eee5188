import Mathlib.Data.List.Chain
import UsdAsset.Cache.Plan
import UsdAsset.Lib.Segmentation

/-!
# Plans are correct and as short as can be

The runs of `PlanRuns` are the groups a greedy segmentation cuts the blocks into, where
a group is legal if its gaps and its extent are within the limits.  A part of a legal
group is legal, so no other plan within the limits has fewer requests.  The arithmetic
of the plan is carried out once more with operations that refuse to wrap.
-/

namespace UsdAsset.Cache

open Segmentation

variable {last block : ℕ} {group blocks : List ℕ}

section Rules

variable (blockSize assetSize coalesceGapBlocks maxRequestBytes : ℕ)

/-- The request for a group of blocks, from the first to the last. -/
def runOf (group : List ℕ) : FetchRun :=
  closeRun blockSize assetSize (group.headD 0) (group.getLastD 0)

/-- The limits of one request. -/
structure LegalRun (group : List ℕ) : Prop where
  gaps : group.IsChain fun previous next => next - previous - 1 ≤ coalesceGapBlocks
  extent : 1 < group.length → (runOf blockSize assetSize group).length ≤ maxRequestBytes

/-- A group of a plan for an ascending list. -/
structure AscendingRun (group : List ℕ) : Prop
    extends LegalRun blockSize assetSize coalesceGapBlocks maxRequestBytes group where
  ascending : group.Pairwise (· < ·)

end Rules

variable {blockSize assetSize coalesceGapBlocks maxRequestBytes : ℕ}

theorem spanLength_le {first outerFirst outerLast : ℕ} (later : outerFirst ≤ first)
    (earlier : last ≤ outerLast) :
    spanLength blockSize assetSize first last ≤
      spanLength blockSize assetSize outerFirst outerLast := by
  have starts : outerFirst * blockSize ≤ first * blockSize := Nat.mul_le_mul_right _ later
  simp only [spanLength, extentOf_offset]
  rcases Nat.lt_or_eq_of_le earlier with before | rfl
  · have short := extentOf_length_le_blockSize last blockSize assetSize
    have whole : last * blockSize + blockSize ≤ outerLast * blockSize := by
      have := Nat.mul_le_mul_right blockSize (by omega : last + 1 ≤ outerLast)
      rwa [Nat.succ_mul] at this
    omega
  · omega

theorem headD_le (ascending : group.Pairwise (· < ·)) (mem : block ∈ group) :
    group.headD 0 ≤ block := by
  cases group with
  | nil => cases mem
  | cons first rest =>
    rcases List.mem_cons.mp mem with rfl | later
    · exact Nat.le_refl _
    · exact Nat.le_of_lt ((List.pairwise_cons.mp ascending).1 block later)

theorem le_getLastD (ascending : group.Pairwise (· < ·)) (mem : block ∈ group) :
    block ≤ group.getLastD 0 := by
  induction group using List.reverseRecOn with
  | nil => cases mem
  | append_singleton group last _ =>
    rw [List.getLastD_concat]
    rcases List.mem_append.mp mem with before | here
    · exact Nat.le_of_lt ((List.pairwise_append.mp ascending).2.2 block before last (by simp))
    · exact Nat.le_of_eq (List.mem_singleton.mp here)

theorem headD_mem (nonempty : group ≠ []) : group.headD 0 ∈ group := by
  cases group with
  | nil => exact absurd rfl nonempty
  | cons first rest => exact List.mem_cons_self

theorem getLastD_mem (nonempty : group ≠ []) : group.getLastD 0 ∈ group := by
  induction group using List.reverseRecOn with
  | nil => exact absurd rfl nonempty
  | append_singleton group last _ =>
    rw [List.getLastD_concat]
    simp

theorem ascendingRun_hereditary :
    Hereditary (AscendingRun blockSize assetSize coalesceGapBlocks maxRequestBytes) := by
  have extent : ∀ {part whole : List ℕ}, part.Sublist whole → part ≠ [] →
      AscendingRun blockSize assetSize coalesceGapBlocks maxRequestBytes whole →
      1 < part.length → (runOf blockSize assetSize part).length ≤ maxRequestBytes := by
    intro part whole sublist nonempty legal several
    refine Nat.le_trans (spanLength_le ?_ ?_)
      (legal.extent (Nat.lt_of_lt_of_le several sublist.length_le))
    · exact headD_le legal.ascending (sublist.subset (headD_mem nonempty))
    · exact le_getLastD legal.ascending (sublist.subset (getLastD_mem nonempty))
  refine ⟨?_, ?_, ?_⟩
  · intro block
    exact ⟨⟨List.isChain_singleton block, by simp⟩, List.pairwise_singleton _ block⟩
  · intro part whole starts nonempty legal
    have gaps := List.IsChain.prefix legal.gaps starts
    exact ⟨⟨gaps, extent starts.sublist nonempty legal⟩, legal.ascending.sublist starts.sublist⟩
  · intro part whole ends nonempty legal
    exact ⟨⟨legal.gaps.suffix ends, extent ends.sublist nonempty legal⟩,
      legal.ascending.sublist ends.sublist⟩

theorem runOf_append {group : List ℕ} (nonempty : group ≠ []) (next : ℕ) :
    runOf blockSize assetSize (group ++ [next]) =
      closeRun blockSize assetSize (group.headD 0) next := by
  cases group with
  | nil => exact absurd rfl nonempty
  | cons first rest => rw [runOf, List.getLastD_concat, List.cons_append, List.headD_cons,
      List.headD_cons]

theorem ascendingRun_append {next : ℕ}
    (legal : AscendingRun blockSize assetSize coalesceGapBlocks maxRequestBytes group)
    (ends : group.getLast? = some last) (behind : last < next) :
    AscendingRun blockSize assetSize coalesceGapBlocks maxRequestBytes (group ++ [next]) ↔
      next - last - 1 ≤ coalesceGapBlocks ∧
        spanLength blockSize assetSize (group.headD 0) next ≤ maxRequestBytes := by
  have nonempty : group ≠ [] := by
    rintro rfl
    cases ends
  have several : 1 < (group ++ [next]).length := by
    have := List.length_pos_of_ne_nil nonempty
    rw [List.length_append, List.length_singleton]
    omega
  constructor
  · intro longer
    have extent := longer.extent several
    rw [runOf_append nonempty] at extent
    exact ⟨(List.isChain_append.mp longer.gaps).2.2 last ends next rfl, extent⟩
  · rintro ⟨near, small⟩
    refine ⟨⟨?_, ?_⟩, ?_⟩
    · refine legal.gaps.append (List.isChain_singleton next) ?_
      intro previous previousLast following followingFirst
      rw [ends] at previousLast
      cases previousLast
      cases followingFirst
      exact near
    · intro _
      rw [runOf_append nonempty]
      exact small
    · refine List.pairwise_append.mpr ⟨legal.ascending, List.pairwise_singleton _ next, ?_⟩
      intro block mem following followingMem
      rw [List.mem_singleton.mp followingMem]
      have upTo := le_getLastD legal.ascending mem
      rw [List.getLastD_eq_getLast?, ends, Option.getD_some] at upTo
      omega

section Greedy

open Classical in
theorem planFrom_eq {rest : List ℕ}
    (legal : AscendingRun blockSize assetSize coalesceGapBlocks maxRequestBytes group)
    (ends : group.getLast? = some last) (ascending : (last :: rest).Pairwise (· < ·)) :
    planFrom blockSize assetSize coalesceGapBlocks maxRequestBytes (group.headD 0) last rest =
      (greedyFrom (AscendingRun blockSize assetSize coalesceGapBlocks maxRequestBytes) group
        rest).map (runOf blockSize assetSize) := by
  induction rest generalizing group last with
  | nil =>
    simp only [planFrom, greedyFrom, List.map_cons, List.map_nil, runOf]
    rw [List.getLastD_eq_getLast?, ends, Option.getD_some]
  | cons next rest ih =>
    rcases List.pairwise_cons.mp ascending with ⟨behind, tail⟩
    have joins := ascendingRun_append legal ends (behind next (by simp))
    have nonempty : group ≠ [] := by
      rintro rfl
      cases ends
    simp only [planFrom, greedyFrom]
    by_cases taken : AscendingRun blockSize assetSize coalesceGapBlocks maxRequestBytes
        (group ++ [next])
    · rw [if_pos taken, if_pos (joins.mp taken)]
      have first : (group ++ [next]).headD 0 = group.headD 0 :=
        congrArg FetchRun.firstBlock (@runOf_append blockSize assetSize group nonempty next)
      rw [← first]
      exact ih taken (by simp) tail
    · rw [if_neg taken, if_neg (joins.not.mp taken), List.map_cons]
      rw [← ih (ascendingRun_hereditary.singleton next) rfl tail, runOf,
        List.getLastD_eq_getLast?, ends]
      rfl

open Classical in
theorem planRuns_eq (ascending : blocks.Pairwise (· < ·)) :
    planRuns blockSize assetSize coalesceGapBlocks maxRequestBytes blocks =
      (greedy (AscendingRun blockSize assetSize coalesceGapBlocks maxRequestBytes)
        blocks).map (runOf blockSize assetSize) := by
  cases blocks with
  | nil => rfl
  | cons first rest =>
    exact planFrom_eq (ascendingRun_hereditary.singleton first) rfl ascending

end Greedy

/-! ### Machine arithmetic -/

/-- Operations on numbers of sixty-four bits that refuse to wrap. -/
def checkedAdd (first second : ℕ) : Option ℕ :=
  if first + second < 2 ^ 64 then some (first + second) else none

def checkedSub (first second : ℕ) : Option ℕ :=
  if second ≤ first then some (first - second) else none

def checkedMul (first second : ℕ) : Option ℕ :=
  if first * second < 2 ^ 64 then some (first * second) else none

section Checked

variable (blockSize assetSize coalesceGapBlocks maxRequestBytes : ℕ)

def checkedExtentOf (blockIndex : ℕ) : Option BlockExtent := do
  let offset ← checkedMul blockIndex blockSize
  if offset ≥ assetSize then some ⟨offset, 0⟩
  else
    let remaining ← checkedSub assetSize offset
    some ⟨offset, min blockSize remaining⟩

def checkedSpanLength (first last : ℕ) : Option ℕ := do
  let begin ← checkedExtentOf blockSize assetSize first
  let «end» ← checkedExtentOf blockSize assetSize last
  let stop ← checkedAdd «end».offset «end».length
  checkedSub stop begin.offset

def checkedCloseRun (first last : ℕ) : Option FetchRun := do
  let begin ← checkedExtentOf blockSize assetSize first
  let distance ← checkedSub last first
  let blockCount ← checkedAdd distance 1
  let length ← checkedSpanLength blockSize assetSize first last
  some { firstBlock := first, blockCount, offset := begin.offset, length }

def checkedPlanFrom (first last : ℕ) : List ℕ → Option (List FetchRun)
  | [] => do
      let run ← checkedCloseRun blockSize assetSize first last
      some [run]
  | next :: rest => do
      let distance ← checkedSub next last
      let gap ← checkedSub distance 1
      let merged ← checkedSpanLength blockSize assetSize first next
      if gap ≤ coalesceGapBlocks ∧ merged ≤ maxRequestBytes then
        checkedPlanFrom first next rest
      else
        let run ← checkedCloseRun blockSize assetSize first last
        let runs ← checkedPlanFrom next next rest
        some (run :: runs)

/-- `PlanRuns` where every operation has to stay within sixty-four bits. -/
def checkedPlanRuns : List ℕ → Option (List FetchRun)
  | [] => some []
  | first :: rest =>
      checkedPlanFrom blockSize assetSize coalesceGapBlocks maxRequestBytes first first rest

end Checked

section NoWrap

variable {first : ℕ}

theorem checkedExtentOf_eq (representable : assetSize < 2 ^ 64)
    (inside : block * blockSize < assetSize) :
    checkedExtentOf blockSize assetSize block = some (extentOf block blockSize assetSize) := by
  have product : checkedMul block blockSize = some (block * blockSize) :=
    if_pos (Nat.lt_trans inside representable)
  have remaining : checkedSub assetSize (block * blockSize) =
      some (assetSize - block * blockSize) := if_pos (Nat.le_of_lt inside)
  simp [checkedExtentOf, product, remaining, extentOf, Nat.not_le.mpr inside]

theorem checkedSpanLength_eq (representable : assetSize < 2 ^ 64) (ordered : first ≤ last)
    (inside : last * blockSize < assetSize) :
    checkedSpanLength blockSize assetSize first last =
      some (spanLength blockSize assetSize first last) := by
  have starts : first * blockSize ≤ last * blockSize := Nat.mul_le_mul_right _ ordered
  have stops := extentOf_end_le inside
  rw [checkedSpanLength, checkedExtentOf_eq representable (Nat.lt_of_le_of_lt starts inside),
    checkedExtentOf_eq representable inside]
  simp only [Option.bind_eq_bind, Option.bind_some, checkedAdd, checkedSub, extentOf_offset]
  rw [if_pos (Nat.lt_of_le_of_lt stops representable), Option.bind_some,
    if_pos (Nat.le_trans starts (Nat.le_add_right _ _))]
  simp only [spanLength, extentOf_offset]

variable (positive : 0 < blockSize) (representable : assetSize < 2 ^ 64)

include positive representable

theorem checkedCloseRun_eq (ordered : first ≤ last) (inside : last * blockSize < assetSize) :
    checkedCloseRun blockSize assetSize first last =
      some (closeRun blockSize assetSize first last) := by
  have starts : first * blockSize ≤ last * blockSize := Nat.mul_le_mul_right _ ordered
  have small : last ≤ last * blockSize := Nat.le_mul_of_pos_right last positive
  have distance : checkedSub last first = some (last - first) := if_pos ordered
  have count : checkedAdd (last - first) 1 = some (last - first + 1) := if_pos (by omega)
  rw [checkedCloseRun, checkedExtentOf_eq representable (Nat.lt_of_le_of_lt starts inside),
    checkedSpanLength_eq representable ordered inside, distance]
  simp only [Option.bind_eq_bind, Option.bind_some, count, closeRun]

theorem checkedPlanFrom_eq
    {rest : List ℕ} (ordered : first ≤ last) (ascending : (last :: rest).Pairwise (· < ·))
    (inside : ∀ block ∈ last :: rest, block * blockSize < assetSize) :
    checkedPlanFrom blockSize assetSize coalesceGapBlocks maxRequestBytes first last rest =
      some (planFrom blockSize assetSize coalesceGapBlocks maxRequestBytes first last rest) := by
  have closes := checkedCloseRun_eq positive representable ordered (inside last (by simp))
  induction rest generalizing first last with
  | nil => simp [checkedPlanFrom, planFrom, closes]
  | cons next rest ih =>
    rcases List.pairwise_cons.mp ascending with ⟨behind, tail⟩
    have later := behind next (by simp)
    have insideTail : ∀ block ∈ next :: rest, block * blockSize < assetSize := fun block mem =>
      inside block (List.mem_cons_of_mem _ mem)
    have insideNext := insideTail next (by simp)
    have distance : checkedSub next last = some (next - last) := if_pos (by omega)
    have gap : checkedSub (next - last) 1 = some (next - last - 1) := if_pos (by omega)
    have merged := checkedSpanLength_eq representable (by omega : first ≤ next) insideNext
    rw [checkedPlanFrom, planFrom, distance, merged]
    simp only [Option.bind_eq_bind, Option.bind_some, gap]
    split
    · exact ih (by omega) tail insideTail
        (checkedCloseRun_eq positive representable (by omega) insideNext)
    · rw [closes, ih (Nat.le_refl next) tail insideTail
        (checkedCloseRun_eq positive representable (Nat.le_refl next) insideNext)]
      rfl

theorem checkedPlanRuns_eq (ascending : blocks.Pairwise (· < ·))
    (inside : ∀ block ∈ blocks, block * blockSize < assetSize) :
    checkedPlanRuns blockSize assetSize coalesceGapBlocks maxRequestBytes blocks =
      some (planRuns blockSize assetSize coalesceGapBlocks maxRequestBytes blocks) := by
  cases blocks with
  | nil => rfl
  | cons first rest =>
    exact checkedPlanFrom_eq positive representable (Nat.le_refl first) ascending inside

end NoWrap

/-! ### The plan -/

theorem closeRun_end {first last : ℕ} (ordered : first ≤ last) :
    (closeRun blockSize assetSize first last).offset +
        (closeRun blockSize assetSize first last).length =
      (extentOf last blockSize assetSize).offset + (extentOf last blockSize assetSize).length := by
  have starts : first * blockSize ≤ last * blockSize := Nat.mul_le_mul_right _ ordered
  simp only [closeRun, spanLength, extentOf_offset]
  omega

theorem ascendingRun_of_segmentation {groups : List (List ℕ)}
    (ascending : blocks.Pairwise (· < ·)) (segmentation : IsSegmentation
      (LegalRun blockSize assetSize coalesceGapBlocks maxRequestBytes) groups blocks) :
    IsSegmentation (AscendingRun blockSize assetSize coalesceGapBlocks maxRequestBytes) groups
      blocks := by
  refine ⟨segmentation.flatten, segmentation.nonempty, ?_⟩
  intro group mem
  refine ⟨segmentation.legal group mem, ?_⟩
  rw [← segmentation.flatten] at ascending
  exact ascending.sublist (List.sublist_flatten_of_mem mem)

/--
A plan covers the blocks by requests within the limits, none of whose operations wraps,
and no other way of grouping the blocks within the limits has fewer requests.
-/
theorem planRuns_optimal (positive : 0 < blockSize) (representable : assetSize < 2 ^ 64)
    {blocks : List ℕ} (ascending : blocks.Pairwise (· < ·))
    (inside : ∀ block ∈ blocks, block * blockSize < assetSize) :
    checkedPlanRuns blockSize assetSize coalesceGapBlocks maxRequestBytes blocks =
        some (planRuns blockSize assetSize coalesceGapBlocks maxRequestBytes blocks) ∧
      (∃ groups, IsSegmentation (LegalRun blockSize assetSize coalesceGapBlocks maxRequestBytes)
          groups blocks ∧
        planRuns blockSize assetSize coalesceGapBlocks maxRequestBytes blocks =
          groups.map (runOf blockSize assetSize)) ∧
      (∀ run ∈ planRuns blockSize assetSize coalesceGapBlocks maxRequestBytes blocks,
        run.firstBlock ∈ blocks ∧ run.last ∈ blocks ∧
          run.offset = (extentOf run.firstBlock blockSize assetSize).offset ∧
          run.offset + run.length = (extentOf run.last blockSize assetSize).offset +
            (extentOf run.last blockSize assetSize).length ∧
          run.offset + run.length ≤ assetSize) ∧
      ∀ groups, IsSegmentation (LegalRun blockSize assetSize coalesceGapBlocks maxRequestBytes)
          groups blocks →
        (planRuns blockSize assetSize coalesceGapBlocks maxRequestBytes blocks).length ≤
          groups.length := by
  classical
  have groups := greedy_isSegmentation (@ascendingRun_hereditary blockSize assetSize
    coalesceGapBlocks maxRequestBytes) blocks
  refine ⟨checkedPlanRuns_eq positive representable ascending inside, ⟨_, ⟨groups.flatten,
    groups.nonempty, fun group mem => (groups.legal group mem).toLegalRun⟩,
    planRuns_eq ascending⟩, ?_, ?_⟩
  · intro run mem
    rw [planRuns_eq ascending] at mem
    rcases List.mem_map.mp mem with ⟨group, groupMem, rfl⟩
    have nonempty := groups.nonempty group groupMem
    have listed : ∀ block ∈ group, block ∈ blocks := by
      intro block blockMem
      rw [← groups.flatten]
      exact List.mem_flatten_of_mem groupMem blockMem
    have lastMem := listed _ (getLastD_mem nonempty)
    have ordered := le_getLastD (groups.legal group groupMem).ascending (headD_mem nonempty)
    have last : (runOf blockSize assetSize group).last = group.getLastD 0 := closeRun_last ordered
    have stop := @closeRun_end blockSize assetSize _ _ ordered
    rw [last]
    refine ⟨listed _ (headD_mem nonempty), lastMem, rfl, stop, ?_⟩
    rw [runOf, stop, extentOf_offset]
    exact extentOf_end_le (inside _ lastMem)
  · intro others segmentation
    rw [planRuns_eq ascending, List.length_map]
    exact length_greedy_le ascendingRun_hereditary
      (ascendingRun_of_segmentation ascending segmentation)

/-- Three blocks with a gap, the last one short, under a ceiling that separates them. -/
theorem planRuns_optimal_sample :
    planRuns 4096 20000 1 12288 [0, 2, 4] = [⟨0, 3, 0, 12288⟩, ⟨4, 1, 16384, 3616⟩] ∧
      ∀ groups, IsSegmentation (LegalRun 4096 20000 1 12288) groups [0, 2, 4] →
        2 ≤ groups.length := by
  refine ⟨by decide, ?_⟩
  exact (@planRuns_optimal 4096 20000 1 12288 (by decide) (by decide) [0, 2, 4] (by decide)
    (by decide)).2.2.2

end UsdAsset.Cache
