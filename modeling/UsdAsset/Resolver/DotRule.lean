import Mathlib.Data.List.Induction
import Mathlib.Logic.Function.Iterate
import UsdAsset.Resolver.DotSegments

/-!
# One dot-segment rule

What the backend and the resolver leave of a rooted path are the segments that no `..`
consumes, empty ones included, and an empty one where the path ends with a dot segment.
The loop of the resolver ends on every text, rooted or not.
-/

namespace UsdAsset.Resolver

open ByteString Http Segments

variable {segments : List Bytes} {input : Bytes}

def segmentsOf (path : Bytes) : List Bytes := path.tail.splitOn slash

/-- How many segments in front of a list the `..` in it consume. -/
def climbs : List Bytes → ℕ
  | [] => 0
  | segment :: rest =>
      if segment = bytes "." then climbs rest
      else if segment = bytes ".." then climbs rest + 1
      else climbs rest - 1

/-- The segments that are no dot segments and that no later `..` consumes. -/
def unconsumed : List Bytes → List Bytes
  | [] => []
  | segment :: rest =>
      if segment = bytes "." ∨ segment = bytes ".." ∨ climbs rest ≠ 0 then unconsumed rest
      else segment :: unconsumed rest

/-- A dot segment at the end leaves an empty one. -/
def finalSegment (segments : List Bytes) : List Bytes :=
  if segments.getLast? = some (bytes ".") ∨ segments.getLast? = some (bytes "..") then [[]] else []

/-! ### What the stack holds -/

theorem stack_foldl_pushSegment (segments stack : List Bytes) (flag : Bool) :
    (segments.foldl pushSegment (stack, flag)).1 =
      (unconsumed segments).reverse ++ stack.drop (climbs segments) := by
  induction segments generalizing stack flag with
  | nil => rfl
  | cons segment rest ih =>
    rw [List.foldl_cons, pushSegment]
    by_cases dot : segment = bytes "."
    · rw [if_pos dot, ih, unconsumed, climbs, if_pos (Or.inl dot), if_pos dot]
    by_cases dotDot : segment = bytes ".."
    · rw [if_neg dot, if_pos dotDot, ih, unconsumed, climbs, if_pos (Or.inr (Or.inl dotDot)),
        if_neg dot, if_pos dotDot, List.drop_tail]
    · rw [if_neg dot, if_neg dotDot, ih, unconsumed, climbs, if_neg dot, if_neg dotDot]
      cases climbed : climbs rest with
      | zero => simp [dot, dotDot]
      | succ count => simp

theorem flag_foldl_pushSegment (present : segments ≠ []) (state : List Bytes × Bool) :
    (segments.foldl pushSegment state).2 = true ↔
      segments.getLast? = some (bytes ".") ∨ segments.getLast? = some (bytes "..") := by
  induction segments using List.reverseRecOn with
  | nil => exact absurd rfl present
  | append_singleton segments last _ =>
    rw [List.foldl_append, List.foldl_cons, List.foldl_nil, List.getLast?_concat, pushSegment]
    by_cases dot : last = bytes "."
    · simp [dot]
    by_cases dotDot : last = bytes ".."
    · rw [if_neg dot, if_pos dotDot]
      simp [dotDot]
    · simp [dot, dotDot]

theorem keptSegments_foldl (present : segments ≠ []) :
    keptSegments (segments.foldl pushSegment ([], false)) =
      unconsumed segments ++ finalSegment segments := by
  have flag := flag_foldl_pushSegment present ([], false)
  have stack := stack_foldl_pushSegment segments [] false
  rw [List.drop_nil, List.append_nil] at stack
  rw [keptSegments, finalSegment, stack]
  by_cases ended : (segments.foldl pushSegment ([], false)).2 = true
  · rw [if_pos ended, if_pos (flag.mp ended)]
    simp
  · rw [if_neg ended, if_neg (flag.not.mp ended)]
    simp

/-! ### The loop -/

/-- One round of the loop that rewrites the input. -/
def rewriteOnce : Bytes × Bytes → Bytes × Bytes
  | (input, output) =>
      if input = [] then (input, output)
      else if (bytes "../").isPrefixOf input then (input.drop 3, output)
      else if (bytes "./").isPrefixOf input then (input.drop 2, output)
      else if (bytes "/./").isPrefixOf input then (bytes "/" ++ input.drop 3, output)
      else if input = bytes "/." then (bytes "/", output)
      else if (bytes "/../").isPrefixOf input then
        (bytes "/" ++ input.drop 4, dropLastSegment output)
      else if input = bytes "/.." then (bytes "/", dropLastSegment output)
      else if input = bytes "." ∨ input = bytes ".." then ([], output)
      else (input.drop (firstSegment input).length, output ++ firstSegment input)

theorem removeDotSegmentsFrom_succ (fuel : ℕ) (output : Bytes) (more : input ≠ []) :
    removeDotSegmentsFrom (fuel + 1) input output =
      removeDotSegmentsFrom fuel (rewriteOnce (input, output)).1
        (rewriteOnce (input, output)).2 := by
  rw [removeDotSegmentsFrom, rewriteOnce, if_neg more, if_neg more]
  split_ifs <;> rfl

theorem firstSegment_ne_nil (more : input ≠ []) : firstSegment input ≠ [] := by
  cases input with
  | nil => exact absurd rfl more
  | cons first rest =>
    rw [firstSegment]
    split
    · simp
    · rename_i notSlash
      have kept : (first != (('/' : Char) : UInt8)) = true := bne_iff_ne.mpr notSlash
      simp [kept]

theorem length_rewriteOnce (output : Bytes) (more : input ≠ []) :
    (rewriteOnce (input, output)).1.length < input.length := by
  have positive := List.length_pos_of_ne_nil more
  have long : ∀ {pattern : Bytes}, pattern.isPrefixOf input = true →
      pattern.length ≤ input.length := fun begins =>
    (List.isPrefixOf_iff_prefix.mp begins).length_le
  rw [rewriteOnce, if_neg more]
  split_ifs with up here dot finalDot dotDot finalDotDot alone
  · rw [List.length_drop]
    omega
  · rw [List.length_drop]
    omega
  · have three : 3 ≤ input.length := long dot
    rw [List.length_append, List.length_drop]
    change 1 + (input.length - 3) < input.length
    omega
  · rw [finalDot]
    exact Nat.lt_succ_self 1
  · have four : 4 ≤ input.length := long dotDot
    rw [List.length_append, List.length_drop]
    change 1 + (input.length - 4) < input.length
    omega
  · rw [finalDotDot]
    exact Nat.lt_of_sub_eq_succ rfl
  · exact positive
  · have nonempty := List.length_pos_of_ne_nil (firstSegment_ne_nil more)
    rw [List.length_drop]
    omega

/-- The loop ends, and what it leaves is the result. -/
theorem rewriteOnce_ends {fuel : ℕ} {path : Bytes} (output : Bytes) (enough : path.length ≤ fuel) :
    ∃ rounds ≤ fuel, rewriteOnce^[rounds] (path, output) =
      ([], removeDotSegmentsFrom fuel path output) := by
  induction fuel generalizing path output with
  | zero =>
    have empty := List.length_eq_zero_iff.mp (Nat.le_zero.mp enough)
    exact ⟨0, Nat.le_refl 0, by rw [empty]; rfl⟩
  | succ fuel ih =>
    by_cases empty : path = []
    · exact ⟨0, Nat.zero_le _, by rw [empty]; rfl⟩
    · have shorter := length_rewriteOnce output empty
      have within : (rewriteOnce (path, output)).1.length ≤ fuel := by omega
      rcases ih (rewriteOnce (path, output)).2 within with ⟨rounds, few, ended⟩
      refine ⟨rounds + 1, Nat.succ_le_succ few, ?_⟩
      rw [Function.iterate_succ_apply, removeDotSegmentsFrom_succ fuel output empty]
      exact ended

/-! ### The rule -/

theorem removeDotSegments_rooted {path : Bytes} (rooted : path.head? = some slash) :
    removeDotSegments path =
      render slash (unconsumed (segmentsOf path) ++ finalSegment (segmentsOf path)) := by
  cases path with
  | nil => cases rooted
  | cons first rest =>
    cases rooted
    have present : rest.splitOn slash ≠ [] := List.splitOn_ne_nil _ _
    rw [segmentsOf, List.tail_cons, ← keptSegments_foldl present]
    rw [removeDotSegments_eq rfl, ← render_splitOn rest,
      http_removeDotSegments_render present (notMem_of_mem_splitOn rest)]

theorem plain_unconsumed (present : segments ≠ []) (whole : ∀ segment ∈ segments, slash ∉ segment) :
    ∀ segment ∈ unconsumed segments ++ finalSegment segments, IsPlain segment := by
  rw [← keptSegments_foldl present]
  intro segment segmentMem
  rcases mem_keptSegments segmentMem with rfl | kept
  · exact isPlain_nil
  · exact plain_of_foldl whole (by simp) segment kept

/--
On every rooted path the backend's stack and the resolver's rewriting leave the same:
the segments that no `..` consumes.  The result is rooted, has no dot segment and is
changed by neither; and the rewriting ends on every text.
-/
theorem dotSegments_one_rule :
    (∀ path : Bytes, path.head? = some slash →
      Http.removeDotSegments path = removeDotSegments path ∧
      (removeDotSegments path).head? = some slash ∧
      segmentsOf (removeDotSegments path) =
        unconsumed (segmentsOf path) ++ finalSegment (segmentsOf path) ∧
      (∀ segment ∈ segmentsOf (removeDotSegments path),
        segment ≠ bytes "." ∧ segment ≠ bytes "..") ∧
      removeDotSegments (removeDotSegments path) = removeDotSegments path ∧
      Http.removeDotSegments (removeDotSegments path) = removeDotSegments path) ∧
    ∀ path : Bytes, ∃ rounds ≤ path.length,
      rewriteOnce^[rounds] (path, []) = ([], removeDotSegments path) := by
  refine ⟨?_, fun path => rewriteOnce_ends [] (Nat.le_refl _)⟩
  intro path rooted
  have present : segmentsOf path ≠ [] := List.splitOn_ne_nil _ _
  have plain := plain_unconsumed present (notMem_of_mem_splitOn path.tail)
  have kept : unconsumed (segmentsOf path) ++ finalSegment (segmentsOf path) ≠ [] := by
    rw [← keptSegments_foldl present]
    exact keptSegments_foldl_ne_nil present ([], false)
  rw [← removeDotSegments_eq rooted, removeDotSegments_rooted rooted]
  have split : segmentsOf (render slash
      (unconsumed (segmentsOf path) ++ finalSegment (segmentsOf path))) =
      unconsumed (segmentsOf path) ++ finalSegment (segmentsOf path) :=
    splitOn_tail_render kept fun segment segmentMem => (plain segment segmentMem).1
  refine ⟨rfl, ?_, split, ?_, removeDotSegments_plain kept plain,
    http_removeDotSegments_plain kept plain⟩
  · rw [render_eq_intercalate kept, List.head?_cons]
  · rw [split]
    exact fun segment segmentMem => (plain segment segmentMem).2

theorem dotSegments_one_rule_sample :
    Http.removeDotSegments (bytes "/a//b/../c/..") = removeDotSegments (bytes "/a//b/../c/..") ∧
      segmentsOf (removeDotSegments (bytes "/a//b/../c/..")) = [bytes "a", [], []] := by
  rcases dotSegments_one_rule.1 (bytes "/a//b/../c/..") rfl with ⟨same, _, split, _⟩
  refine ⟨same, split.trans ?_⟩
  decide

end UsdAsset.Resolver
