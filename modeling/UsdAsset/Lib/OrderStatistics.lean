import Mathlib.Algebra.BigOperators.Group.List.Basic
import Mathlib.Algebra.Ring.Nat
import Mathlib.Data.List.Sort

/-!
# Order statistics from counters

The element of a rank, counted from one in ascending order, lies on the side of a bound
that the number of elements up to the bound says.  A list whose elements are only counted
by ordered bins still tells the bin of the element of a rank: it is the first one at which
the counters add up to the rank.
-/

namespace OrderStatistics

/-! ### Bins -/

variable {α ι : Type*} {list : List α} {rank : ℕ}

/-- The number of elements in each bin. -/
def tally [DecidableEq ι] (bin : α → ι) (list : List α) (index : ι) : ℕ :=
  list.countP fun element => bin element = index

theorem sum_map_tally [DecidableEq ι] (bin : α → ι) (list : List α) {bins : List ι}
    (distinct : bins.Nodup) :
    (bins.map (tally bin list)).sum = list.countP fun element => bin element ∈ bins := by
  induction bins with
  | nil => simp
  | cons index rest ih =>
    rcases List.nodup_cons.mp distinct with ⟨fresh, distinctRest⟩
    rw [List.map_cons, List.sum_cons, ih distinctRest, tally]
    clear ih
    induction list with
    | nil => rfl
    | cons element list ih =>
      by_cases here : bin element = index
      · subst here
        simp only [List.countP_cons, List.mem_cons, true_or, decide_true, if_true, fresh,
          decide_false, Bool.false_eq_true, if_false] at ih ⊢
        omega
      · simp only [List.countP_cons, List.mem_cons, here, false_or, decide_false,
          Bool.false_eq_true, if_false] at ih ⊢
        omega

variable [LinearOrder α] {element : α}

/-- The element of a rank, counted from one in ascending order. -/
def IsRanked (list : List α) (rank : ℕ) (element : α) : Prop :=
  0 < rank ∧ (list.insertionSort (· ≤ ·))[rank - 1]? = some element

theorem lt_countP_iff {ascending : List α} (sorted : ascending.Pairwise (· ≤ ·)) {test : α → Bool}
    (closed : ∀ lower upper, lower ≤ upper → test upper = true → test lower = true)
    {index : ℕ} (here : ascending[index]? = some element) :
    index < ascending.countP test ↔ test element = true := by
  induction ascending generalizing index with
  | nil => simp at here
  | cons first rest ih =>
    rcases List.pairwise_cons.mp sorted with ⟨least, tail⟩
    cases passes : test first with
    | true =>
      rw [List.countP_cons_of_pos passes]
      cases index with
      | zero =>
        cases here
        simp [passes]
      | succ index =>
        rw [Nat.succ_lt_succ_iff]
        exact ih tail here
    | false =>
      -- nothing passes behind an element that fails
      have fails : ∀ other ∈ first :: rest, ¬test other = true := by
        refine List.forall_mem_cons.mpr ⟨by simp [passes], fun other otherMem otherPasses => ?_⟩
        rw [closed first other (least other otherMem) otherPasses] at passes
        cases passes
      rw [List.countP_eq_zero.mpr fails]
      simp [fails element (List.mem_of_getElem? here)]

theorem IsRanked.le_countP_iff (ranked : IsRanked list rank element) {test : α → Bool}
    (closed : ∀ lower upper, lower ≤ upper → test upper = true → test lower = true) :
    rank ≤ list.countP test ↔ test element = true := by
  rcases ranked with ⟨positive, here⟩
  rw [← lt_countP_iff (List.pairwise_insertionSort (· ≤ ·) list) closed here,
    (List.perm_insertionSort (· ≤ ·) list).countP_eq]
  omega

theorem IsRanked.mem (ranked : IsRanked list rank element) : element ∈ list :=
  (List.perm_insertionSort (· ≤ ·) list).mem_iff.mp (List.mem_of_getElem? ranked.2)

theorem IsRanked.between [LinearOrder ι] {bin : α → ι} (monotone : Monotone bin)
    (ranked : IsRanked list rank element) :
    list.countP (fun other => bin other < bin element) < rank ∧
      rank ≤ list.countP (fun other => bin other ≤ bin element) := by
  constructor
  · rw [← Nat.not_le, ranked.le_countP_iff]
    · simp
    · intro lower upper below upperLt
      exact decide_eq_true (lt_of_le_of_lt (monotone below) (of_decide_eq_true upperLt))
  · rw [ranked.le_countP_iff]
    · simp
    · intro lower upper below upperLe
      exact decide_eq_true (le_trans (monotone below) (of_decide_eq_true upperLe))

end OrderStatistics
