import UsdAsset.Lib.Segments
import UsdAsset.Resolver.Identifier

/-!
# Two ways to remove dot segments

The resolver rewrites the text of a path, as RFC 3986 §5.2.4 is written; the
backend keeps a stack of segments.  On a rooted path the two agree, and a path
without dot segments is changed by neither.
-/

namespace UsdAsset.Resolver

open ByteString Http Segments

variable {segments : List Bytes} {state : List Bytes × Bool} {segment : Bytes}

/-- The stack of segments, first segment first, with the empty one a final dot segment leaves. -/
def keptSegments (state : List Bytes × Bool) : List Bytes :=
  (if state.2 then [] :: state.1 else state.1).reverse

/-- A segment that is neither `.` nor `..`, and is one segment. -/
def IsPlain (segment : Bytes) : Prop :=
  slash ∉ segment ∧ segment ≠ bytes "." ∧ segment ≠ bytes ".."

/-! ### The stack -/

theorem foldl_pushSegment_plain (plain : ∀ segment ∈ segments, IsPlain segment)
    (stack : List Bytes) :
    segments.foldl pushSegment (stack, false) = (segments.reverse ++ stack, false) := by
  induction segments generalizing stack with
  | nil => rfl
  | cons segment rest ih =>
    rcases plain segment List.mem_cons_self with ⟨_, notDot, notDotDot⟩
    rw [List.foldl_cons, pushSegment, if_neg notDot, if_neg notDotDot,
      ih fun other otherMem => plain other (List.mem_cons_of_mem _ otherMem)]
    simp

theorem foldl_pushSegment_flag (stack : List Bytes) (flag other : Bool) (segment : Bytes)
    (rest : List Bytes) :
    (segment :: rest).foldl pushSegment (stack, flag) =
      (segment :: rest).foldl pushSegment (stack, other) := by
  rw [List.foldl_cons, List.foldl_cons]
  congr 1

theorem plain_of_foldl (whole : ∀ segment ∈ segments, slash ∉ segment)
    (plain : ∀ segment ∈ state.1, IsPlain segment) :
    ∀ segment ∈ (segments.foldl pushSegment state).1, IsPlain segment := by
  induction segments generalizing state with
  | nil => exact plain
  | cons segment rest ih =>
    refine ih (fun other otherMem => whole other (List.mem_cons_of_mem _ otherMem)) ?_
    simp only [pushSegment]
    split
    · exact plain
    · rename_i notDot
      split
      · exact fun other otherMem => plain other (List.mem_of_mem_tail otherMem)
      · rename_i notDotDot
        intro other otherMem
        rcases List.mem_cons.mp otherMem with rfl | kept
        · exact ⟨whole other List.mem_cons_self, notDot, notDotDot⟩
        · exact plain other kept

theorem mem_of_mem_foldl (segmentMem : segment ∈ (segments.foldl pushSegment state).1) :
    segment ∈ segments ∨ segment ∈ state.1 := by
  induction segments generalizing state with
  | nil => exact Or.inr segmentMem
  | cons first rest ih =>
    rcases ih segmentMem with later | pushed
    · exact Or.inl (List.mem_cons_of_mem _ later)
    · simp only [pushSegment] at pushed
      split at pushed
      · exact Or.inr pushed
      · split at pushed
        · exact Or.inr (List.mem_of_mem_tail pushed)
        · rcases List.mem_cons.mp pushed with rfl | kept
          · exact Or.inl List.mem_cons_self
          · exact Or.inr kept

theorem isPlain_nil : IsPlain [] := ⟨by simp, by decide, by decide⟩

theorem mem_keptSegments (segmentMem : segment ∈ keptSegments state) :
    segment = [] ∨ segment ∈ state.1 := by
  simp only [keptSegments, List.mem_reverse] at segmentMem
  split at segmentMem
  · exact List.mem_cons.mp segmentMem
  · exact Or.inr segmentMem

theorem keptSegments_foldl_ne_nil (present : segments ≠ []) (state : List Bytes × Bool) :
    keptSegments (segments.foldl pushSegment state) ≠ [] := by
  induction segments generalizing state with
  | nil => exact absurd rfl present
  | cons segment rest ih =>
    cases rest with
    | nil =>
      simp only [List.foldl_cons, List.foldl_nil, pushSegment, keptSegments]
      split
      · simp
      · split <;> simp
    | cons next rest => exact ih (by simp) _

theorem http_removeDotSegments_render (present : segments ≠ [])
    (whole : ∀ segment ∈ segments, slash ∉ segment) :
    Http.removeDotSegments (render slash segments) =
      render slash (keptSegments (segments.foldl pushSegment ([], false))) := by
  have rooted : (render slash segments).head? = some slash := by
    rw [render_eq_intercalate present, List.head?_cons]
  have kept := keptSegments_foldl_ne_nil present ([], false)
  have nonempty : render slash (keptSegments (segments.foldl pushSegment ([], false))) ≠ [] := by
    rw [render_eq_intercalate kept]
    simp
  simp only [Http.removeDotSegments, rooted, if_true, splitOn_tail_render present whole]
  exact if_neg nonempty

/-! ### The rewriting -/

section

variable (fuel : ℕ) (rest : List Bytes) (output : Bytes)

theorem rewrite_dot (next : Bytes) :
    removeDotSegmentsFrom (fuel + 1) (render slash (bytes "." :: next :: rest)) output =
      removeDotSegmentsFrom fuel (render slash (next :: rest)) output := by
  rfl

theorem rewrite_final_dot :
    removeDotSegmentsFrom (fuel + 1) (render slash [bytes "."]) output =
      removeDotSegmentsFrom fuel (render slash [[]]) output := by
  rfl

theorem rewrite_dotDot (next : Bytes) :
    removeDotSegmentsFrom (fuel + 1) (render slash (bytes ".." :: next :: rest)) output =
      removeDotSegmentsFrom fuel (render slash (next :: rest)) (dropLastSegment output) := by
  rfl

theorem rewrite_final_dotDot :
    removeDotSegmentsFrom (fuel + 1) (render slash [bytes ".."]) output =
      removeDotSegmentsFrom fuel (render slash [[]]) (dropLastSegment output) := by
  rfl

end

theorem takeWhile_segment (rest : List Bytes) (whole : slash ∉ segment) :
    (segment ++ render slash rest).takeWhile (fun byte => byte != slash) = segment := by
  rw [List.takeWhile_append_of_pos]
  · cases rest with
    | nil => simp
    | cons next rest => simp
  · intro byte byteMem
    rw [bne_iff_ne]
    rintro rfl
    exact whole byteMem

theorem firstSegment_render (rest : List Bytes) (whole : slash ∉ segment) :
    firstSegment (render slash (segment :: rest)) = slash :: segment := by
  rw [render_cons, firstSegment, if_pos rfl]
  exact congrArg _ (takeWhile_segment rest whole)

section

variable {pattern : Bytes} (rest : List Bytes)

theorem isPrefixOf_render (whole : slash ∉ segment) (patternWhole : slash ∉ pattern)
    (different : segment ≠ pattern) :
    ¬(slash :: pattern ++ [slash]).isPrefixOf (render slash (segment :: rest)) = true := by
  intro isPrefix
  rcases List.isPrefixOf_iff_prefix.mp isPrefix with ⟨tail, shape⟩
  have inside : pattern ++ render slash [tail] = segment ++ render slash rest := by
    simpa using shape
  have cut := congrArg (List.takeWhile fun byte => byte != slash) inside
  rw [takeWhile_segment _ whole, takeWhile_segment _ patternWhole] at cut
  exact different cut.symm

theorem render_ne (whole : slash ∉ segment) (patternWhole : slash ∉ pattern)
    (different : segment ≠ pattern) : render slash (segment :: rest) ≠ slash :: pattern := by
  intro same
  have inside : segment ++ render slash rest = pattern ++ render slash [] := by
    simpa using same
  have cut := congrArg (List.takeWhile fun byte => byte != slash) inside
  rw [takeWhile_segment _ whole, takeWhile_segment _ patternWhole] at cut
  exact different cut

theorem rewrite_plain (fuel : ℕ) (output : Bytes) (plain : IsPlain segment) :
    removeDotSegmentsFrom (fuel + 1) (render slash (segment :: rest)) output =
      removeDotSegmentsFrom fuel (render slash rest) (output ++ slash :: segment) := by
  rcases plain with ⟨whole, notDot, notDotDot⟩
  have remaining : (render slash (segment :: rest)).drop (slash :: segment).length =
      render slash rest := by
    rw [render_cons]
    simp
  have notRelative : ∀ pattern : Bytes, pattern.head? = some (('.' : Char) : UInt8) →
      ¬pattern.isPrefixOf (render slash (segment :: rest)) = true := by
    intro pattern relative
    cases pattern with
    | nil => cases relative
    | cons first pattern =>
      cases relative
      simp [slash, List.isPrefixOf]
      intro same
      cases same
  have dotWhole : slash ∉ bytes "." := by decide
  have dotDotWhole : slash ∉ bytes ".." := by decide
  have notEmpty : render slash (segment :: rest) ≠ [] := by simp
  have noDot : ¬(bytes "/./").isPrefixOf (render slash (segment :: rest)) = true :=
    isPrefixOf_render rest whole dotWhole notDot
  have noDotDot : ¬(bytes "/../").isPrefixOf (render slash (segment :: rest)) = true :=
    isPrefixOf_render rest whole dotDotWhole notDotDot
  have noFinalDot : render slash (segment :: rest) ≠ bytes "/." :=
    render_ne rest whole dotWhole notDot
  have noFinalDotDot : render slash (segment :: rest) ≠ bytes "/.." :=
    render_ne rest whole dotDotWhole notDotDot
  have rooted : ¬(render slash (segment :: rest) = bytes "." ∨
      render slash (segment :: rest) = bytes "..") := by
    rintro (same | same)
    · cases same
    · cases same
  rw [removeDotSegmentsFrom, if_neg notEmpty, if_neg (notRelative (bytes "../") rfl),
    if_neg (notRelative (bytes "./") rfl), if_neg noDot, if_neg noFinalDot, if_neg noDotDot,
    if_neg noFinalDotDot, if_neg rooted, firstSegment_render rest whole, remaining]

end

theorem dropLastSegment_render {stack : List Bytes} (plain : ∀ segment ∈ stack, IsPlain segment) :
    dropLastSegment (render slash stack.reverse) = render slash stack.tail.reverse := by
  cases stack with
  | nil => rfl
  | cons segment stack =>
    have found := splitLast_append (render slash stack.reverse) (plain segment List.mem_cons_self).1
    rw [dropLastSegment, List.reverse_cons, render_append, render_cons, render_nil,
      List.append_nil]
    simp only [slash] at found
    simp only [slash, found, List.tail_cons]

theorem length_render_cons (segment : Bytes) (rest : List Bytes) :
    (render slash (segment :: rest)).length =
      1 + segment.length + (render slash rest).length := by
  rw [render_cons, List.length_cons, List.length_append]
  omega

theorem removeDotSegmentsFrom_nil (fuel : ℕ) (output : Bytes) :
    removeDotSegmentsFrom fuel [] output = output := by
  cases fuel <;> rfl

theorem rewrite_final (fuel : ℕ) (output : Bytes) :
    removeDotSegmentsFrom (fuel + 1) (render slash [[]]) output = output ++ render slash [[]] := by
  rw [rewrite_plain [] fuel output isPlain_nil, render_nil, removeDotSegmentsFrom_nil]
  simp

theorem removeDotSegmentsFrom_render (whole : ∀ segment ∈ segments, slash ∉ segment)
    {stack : List Bytes} (plain : ∀ segment ∈ stack, IsPlain segment) {fuel : ℕ}
    (enough : (render slash segments).length ≤ fuel) :
    removeDotSegmentsFrom fuel (render slash segments) (render slash stack.reverse) =
      render slash (keptSegments (segments.foldl pushSegment (stack, false))) := by
  induction segments generalizing stack fuel with
  | nil => exact removeDotSegmentsFrom_nil fuel _
  | cons segment rest ih =>
    have restWhole : ∀ other ∈ rest, slash ∉ other :=
      fun other otherMem => whole other (List.mem_cons_of_mem _ otherMem)
    rw [length_render_cons] at enough
    rcases fuel with _ | fuel
    · omega
    by_cases dot : segment = bytes "."
    · subst dot
      cases rest with
      | nil =>
        rcases fuel with _ | fuel
        · simp [bytes] at enough
        rw [rewrite_final_dot, rewrite_final, ← render_append]
        simp [keptSegments, pushSegment]
      | cons next rest =>
        rw [rewrite_dot, ih restWhole plain (by omega)]
        exact congrArg (fun state => render slash (keptSegments state))
          (foldl_pushSegment_flag stack false true next rest)
    by_cases dotDot : segment = bytes ".."
    · subst dotDot
      have tailPlain : ∀ other ∈ stack.tail, IsPlain other :=
        fun other otherMem => plain other (List.mem_of_mem_tail otherMem)
      cases rest with
      | nil =>
        rcases fuel with _ | fuel
        · simp [bytes] at enough
        rw [rewrite_final_dotDot, rewrite_final, dropLastSegment_render plain, ← render_append]
        simp [keptSegments, pushSegment, dot]
      | cons next rest =>
        rw [rewrite_dotDot, dropLastSegment_render plain, ih restWhole tailPlain (by omega)]
        exact congrArg (fun state => render slash (keptSegments state))
          (foldl_pushSegment_flag stack.tail false true next rest)
    · have segmentPlain : IsPlain segment := ⟨whole segment List.mem_cons_self, dot, dotDot⟩
      have pushed : ∀ other ∈ segment :: stack, IsPlain other := by
        intro other otherMem
        rcases List.mem_cons.mp otherMem with rfl | kept
        · exact segmentPlain
        · exact plain other kept
      have written : render slash stack.reverse ++ slash :: segment =
          render slash (segment :: stack).reverse := by
        simp
      rw [rewrite_plain rest fuel _ segmentPlain, written, ih restWhole pushed (by omega),
        List.foldl_cons, pushSegment, if_neg dot, if_neg dotDot]

/-- On a rooted path, the rewriting and the stack agree. -/
theorem removeDotSegments_eq {path : Bytes} (rooted : path.head? = some slash) :
    removeDotSegments path = Http.removeDotSegments path := by
  cases path with
  | nil => cases rooted
  | cons first rest =>
    cases rooted
    have whole : ∀ segment ∈ rest.splitOn slash, slash ∉ segment := notMem_of_mem_splitOn rest
    have nothing : ∀ segment ∈ ([] : List Bytes), IsPlain segment := by simp
    rw [← render_splitOn rest, http_removeDotSegments_render (List.splitOn_ne_nil _ _) whole]
    exact removeDotSegmentsFrom_render whole nothing le_rfl

/-- What either leaves of a rooted path are plain segments of it or empty, at least one. -/
theorem exists_kept_of_removeDotSegments (present : segments ≠ [])
    (whole : ∀ segment ∈ segments, slash ∉ segment) :
    ∃ kept, kept ≠ [] ∧
      (∀ segment ∈ kept, IsPlain segment ∧ (segment = [] ∨ segment ∈ segments)) ∧
      removeDotSegments (render slash segments) = render slash kept := by
  have nothing : ∀ segment ∈ ([] : List Bytes), IsPlain segment := by simp
  refine ⟨_, keptSegments_foldl_ne_nil present ([], false), ?_,
    removeDotSegmentsFrom_render whole nothing le_rfl⟩
  intro segment segmentMem
  rcases mem_keptSegments segmentMem with rfl | kept
  · exact ⟨isPlain_nil, Or.inl rfl⟩
  · refine ⟨plain_of_foldl whole nothing segment kept, Or.inr ?_⟩
    simpa using mem_of_mem_foldl kept

theorem http_removeDotSegments_plain (present : segments ≠ [])
    (plain : ∀ segment ∈ segments, IsPlain segment) :
    Http.removeDotSegments (render slash segments) = render slash segments := by
  rw [http_removeDotSegments_render present fun segment segmentMem => (plain segment segmentMem).1,
    foldl_pushSegment_plain plain]
  simp [keptSegments]

theorem removeDotSegments_plain (present : segments ≠ [])
    (plain : ∀ segment ∈ segments, IsPlain segment) :
    removeDotSegments (render slash segments) = render slash segments := by
  rw [removeDotSegments_eq, http_removeDotSegments_plain present plain]
  rw [render_eq_intercalate present, List.head?_cons]

end UsdAsset.Resolver
