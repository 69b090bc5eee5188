import UsdAsset.Cache.CallStep

/-!
# The bytes a call delivers

A call reads from an inner reader whose content is fixed.  As long as the inner
reader answers with that content, the persistent tier with blocks of it, and the
store with nothing else, every byte of a resolved block is the content's byte,
and no byte outside the range is touched.
-/

namespace UsdAsset.Cache

open ByteString

variable {written bytes : Bytes} {offset size block i position : ℕ} {result : ReadResult}
  {run : FetchRun} {runs : List FetchRun} {answer : Answer}

/-! ### What the surroundings may answer -/

/-- A read of a fixed content: all of what there is, or a failure that wrote inside it. -/
def ReadsContent (content : Bytes) (offset size : ℕ) (result : ReadResult) (written : Bytes) :
    Prop :=
  if result.status.isOk then
    written = slice content offset size ∧ result.bytesRead = written.length
  else written.length ≤ (slice content offset size).length

instance (content : Bytes) (offset size : ℕ) (result : ReadResult) (written : Bytes) :
    Decidable (ReadsContent content offset size result written) :=
  inferInstanceAs (Decidable (if result.status.isOk then _ ∧ _ else _ ≤ _))

theorem ReadsContent.length_le {content : Bytes}
    (reads : ReadsContent content offset size result written) :
    written.length ≤ min size (content.length - offset) := by
  rw [← length_slice]
  simp only [ReadsContent] at reads
  split at reads
  · rw [reads.1]
  · exact reads

theorem ReadsContent.of_ok {content : Bytes}
    (reads : ReadsContent content offset size result written) (ok : result.status.code = .ok) :
    written = slice content offset size ∧ result.bytesRead = written.length := by
  simp only [ReadsContent, (Status.isOk_iff _).mpr ok, if_true] at reads
  exact reads

namespace Call

variable {content : Bytes} {call next : Call}

def blockOf (call : Call) (content : Bytes) (block : ℕ) : Bytes :=
  slice content (block * call.blockSize) (call.extent block).length

def innerRead (call : Call) : Option (ℕ × ℕ) :=
  match call.pc with
  | .mismatch i | .direct i => some ((call.window i).offset, (call.window i).length)
  | .fetch (run :: _) => some (run.offset, run.length)
  | .bypass => some (call.request.offset, call.request.size)
  | _ => none

/-- The block a call asks the persistent tier for where it stands. -/
def loads (call : Call) : Option ℕ :=
  match call.pc with
  | .load (block :: _) => some block
  | _ => none

/-- An answer that a fixed content allows. -/
def Legal (content : Bytes) (call : Call) : Answer → Prop
  | .read result written =>
      ∀ asked ∈ call.innerRead, ReadsContent content asked.1 asked.2 result written
  | .loaded (some payload) => ∀ block ∈ call.loads, payload = call.blockOf content block
  | _ => True

instance (content : Bytes) (call : Call) (answer : Answer) :
    Decidable (Legal content call answer) :=
  match answer with
  | .read _ _ => inferInstanceAs (Decidable (∀ asked ∈ call.innerRead, _))
  | .loaded (some _) => inferInstanceAs (Decidable (∀ block ∈ call.loads, _))
  | .loaded none => inferInstanceAs (Decidable True)
  | .silent => inferInstanceAs (Decidable True)
  | .persisted _ => inferInstanceAs (Decidable True)

theorem Legal.read (legal : call.Legal content (.read result written))
    (asked : call.innerRead = some (offset, size)) :
    ReadsContent content offset size result written :=
  legal (offset, size) asked

theorem Legal.loaded {payload : Bytes} (legal : call.Legal content (.loaded (some payload)))
    (asked : call.loads = some block) :
    payload = call.blockOf content block :=
  legal block asked

/-- The store holds nothing but blocks of the content for this call. -/
def StoreServes (content : Bytes) (call : Call) (store : BlockCache) : Prop :=
  ∀ block bytes, store.lookup (call.key block) = some (.resident bytes) →
    bytes.length = (call.extent block).length → bytes = call.blockOf content block

/-! ### What a call has delivered -/

/-- Every byte of a resolved block is the content's. -/
def Filled (content : Bytes) (call : Call) : Prop :=
  ∀ position < call.range.length,
    call.resolved ((call.range.offset + position) / call.blockSize - call.span.first) = true →
      content[call.range.offset + position]? = some (call.dst position)

/-- No byte behind the range is touched. -/
def Framed (call : Call) : Prop :=
  ∀ position, call.range.length ≤ position → call.dst position = call.request.dst position

/-- The result of a call is what a read of the content is meant to return, or a failure. -/
structure Answered (content : Bytes) (call : Call) (result : ReadResult) : Prop where
  ok : result.status.code = .ok → Returns result call.dst
    (contentRead content call.request.offset call.request.dstIsNull call.request.size)
  refused :
    (contentRead content call.request.offset call.request.dstIsNull call.request.size).1 ≠ .ok →
    result.status.code =
      (contentRead content call.request.offset call.request.dstIsNull call.request.size).1

def Delivered (content : Bytes) (call : Call) : Pc → Prop
  | .publishLoaded block payload _ => call.Filled content ∧ payload = call.blockOf content block
  | .publishFetched run transfer _ _ | .persist _ run transfer _ _ =>
      call.Filled content ∧ transfer = slice content run.offset run.length
  | .direct i => call.Filled content ∧ ∀ j < i, call.resolved j = true
  | .giveUp _ | .bypass => True
  | .returned result => call.Answered content result
  | _ => call.Filled content

structure Correct (content : Bytes) (call : Call) : Prop where
  sized : content.length = call.reader.metadata.size
  framed : call.Framed
  delivered : call.Delivered content call.pc

theorem Correct.delivered_at (correct : call.Correct content) {pc : Pc} (place : call.pc = pc) :
    call.Delivered content pc :=
  place ▸ correct.delivered

theorem answered_of_returns (returns : Returns result call.dst
      (contentRead content call.request.offset call.request.dstIsNull call.request.size)) :
    call.Answered content result :=
  ⟨fun _ => returns, fun _ => returns.code⟩

theorem Admitted.not_refused (admitted : call.Admitted)
    (sized : content.length = call.reader.metadata.size) :
    (contentRead content call.request.offset call.request.dstIsNull call.request.size).1 = .ok := by
  have transfer := admitted.1
  rw [range, ← sized] at transfer
  rw [(contentRead_transfer transfer admitted.2).1]

theorem Admitted.answered (admitted : call.Admitted)
    (sized : content.length = call.reader.metadata.size)
    (ok : result.status.code = .ok → Returns result call.dst
      (contentRead content call.request.offset call.request.dstIsNull call.request.size)) :
    call.Answered content result :=
  ⟨ok, fun refused => absurd (admitted.not_refused sized) refused⟩

theorem start_correct {reader : CachedAssetReader} (request : ReadRequest)
    (sized : content.length = reader.metadata.size) : (start reader request).Correct content := by
  refine ⟨sized, fun _ _ => rfl, ?_⟩
  have nothing : (start reader request).Filled content := by
    intro position _ resolved
    cases resolved
  simp only [start, ← sized]
  split
  · rename_i overflow
    exact answered_of_returns (returns_overflow _ overflow)
  · rename_i fits
    split
    · rename_i unbuffered
      exact answered_of_returns (returns_null _ fits unbuffered)
    · rename_i buffered
      split
      · rename_i empty
        exact answered_of_returns (returns_empty _ empty buffered)
      · split
        · trivial
        · exact nothing

/-! ### The part of a block inside the range -/

theorem Admitted.mem_window (admitted : call.Admitted) (within : position < call.range.length) :
    ((call.window i).offset ≤ call.range.offset + position ∧
        call.range.offset + position < (call.window i).offset + (call.window i).length) ↔
      (call.range.offset + position) / call.blockSize = call.span.first + i := by
  have inside := admitted.range_inside
  have mem := mem_extentOf call.reader.blockSize_pos (call.span.first + i)
    call.reader.metadata.size (call.range.offset + position)
  have reaches : call.range.offset + position < call.reader.metadata.size := by omega
  rw [and_iff_left reaches] at mem
  rw [blockSize, ← mem]
  simp only [window, extent, CachedAssetReader.extent, extentOf_offset]
  omega

theorem block_mem_span (call : Call) (within : position < call.range.length) :
    call.span.first ≤ (call.range.offset + position) / call.blockSize ∧
      (call.range.offset + position) / call.blockSize ≤ call.span.last :=
  coveringBlocks_mem call.blockSize (Nat.le_add_right _ _) (Nat.add_lt_add_left within _)

theorem range_le_window (call : Call) (i : ℕ) :
    call.range.offset ≤ (call.window i).offset := by
  simp only [window]
  omega

theorem window_end_le (call : Call) (nonempty : 0 < (call.window i).length) :
    (call.window i).offset + (call.window i).length ≤
      call.range.offset + call.range.length := by
  simp only [window] at nonempty ⊢
  omega

theorem Framed.write_window (framed : call.Framed)
    (fits : written.length ≤ (call.window i).length) (position : ℕ)
    (behind : call.range.length ≤ position) :
    call.dst.write ((call.window i).offset - call.range.offset) written position =
      call.request.dst position := by
  rw [Buffer.write_of_not_covers, framed position behind]
  intro covers
  have onward := covers.1
  have within := covers.2
  have ends := call.window_end_le (i := i) (by omega)
  have := call.range_le_window i
  omega

theorem Filled.write_window (filled : call.Filled content) (admitted : call.Admitted)
    (sized : content.length = call.reader.metadata.size) (within : position < call.range.length)
    (resolved : Function.update call.resolved i true
      ((call.range.offset + position) / call.blockSize - call.span.first) = true) :
    content[call.range.offset + position]? =
      some (call.dst.write ((call.window i).offset - call.range.offset)
        (slice content (call.window i).offset (call.window i).length) position) := by
  have mem := admitted.mem_window (i := i) within
  have onward := call.range_le_window i
  have inside := admitted.range_inside
  by_cases here : (call.range.offset + position) / call.blockSize = call.span.first + i
  · rcases mem.mpr here with ⟨lower, upper⟩
    have ends := call.window_end_le (i := i) (by omega)
    exact Buffer.write_slice onward lower upper (by omega)
  · -- The byte belongs to another block, which this write does not reach.
    have first := (call.block_mem_span within).1
    rw [Function.update_of_ne (by omega)] at resolved
    rw [Buffer.write_of_not_covers, filled position within resolved]
    intro covers
    have lower := covers.1
    have upper := covers.2
    rw [length_slice] at upper
    exact here (mem.mp ⟨by omega, by omega⟩)

/-! ### Blocks of the content -/

theorem overlap_blockOf (call : Call) (content : Bytes) (i : ℕ) :
    (call.overlap i (call.blockOf content (call.span.first + i))).2 =
      call.dst.write ((call.window i).offset - call.range.offset)
        (slice content (call.window i).offset (call.window i).length) := by
  have offset : (call.extent (call.span.first + i)).offset =
      (call.span.first + i) * call.blockSize :=
    extentOf_offset _ _ _
  simp only [overlap, copyOverlap, window, blockOf, ← offset]
  generalize call.extent (call.span.first + i) = extent
  split
  · rename_i outside
    rw [Nat.sub_eq_zero_of_le outside, slice, List.take_zero, Buffer.write_nil]
  · rename_i inside
    change call.dst.write _ (slice (slice content extent.offset extent.length) _ _) = _
    rw [slice_slice _ _ (by omega), Nat.add_sub_cancel' (Nat.le_max_right _ _)]

theorem Fetching.blockBytes {first last : ℕ} {group rest : List ℕ}
    (fetching : call.Fetching run runs first last group rest) (admitted : call.Admitted)
    (lower : first ≤ block) (upper : block ≤ last) :
    call.blockBytes run (slice content run.offset run.length) block =
      call.blockOf content block := by
  have inside := extentOf_inside_closeRun lower upper (admitted.block_inside fetching.inside)
  rw [← fetching.run_eq] at inside
  have offset : (call.extent block).offset = block * call.blockSize := extentOf_offset _ _ _
  change run.offset ≤ (call.extent block).offset ∧
    (call.extent block).offset + (call.extent block).length ≤ run.offset + run.length at inside
  rw [Call.blockBytes, blockOf, ← offset]
  change slice (slice content run.offset run.length) _ _ = _
  rw [slice_slice _ _ (by omega), Nat.add_sub_cancel' inside.1]

/-! ### Delivering a block -/

theorem Filled.resolve (filled : call.Filled content) (admitted : call.Admitted)
    (sized : content.length = call.reader.metadata.size)
    (ofContent : bytes = call.blockOf content (call.span.first + i)) :
    (call.resolve i bytes).Filled content := by
  intro position within resolved
  change content[call.range.offset + position]? = some ((call.overlap i bytes).2 position)
  rw [ofContent, overlap_blockOf]
  exact filled.write_window admitted sized within resolved

theorem Framed.resolve (framed : call.Framed)
    (ofContent : bytes = call.blockOf content (call.span.first + i)) :
    (call.resolve i bytes).Framed := by
  intro position behind
  change (call.overlap i bytes).2 position = _
  rw [ofContent, overlap_blockOf]
  apply framed.write_window _ position behind
  rw [length_slice]
  omega

theorem Correct.settleDirect (correct : call.Correct content) (filled : call.Filled content)
    (admitted : call.Admitted)
    (reads : ReadsContent content (call.window i).offset (call.window i).length result written)
    {resume : Pc} (resumes : ∀ resumed : Call, resumed.Filled content →
      resumed.resolved = Function.update call.resolved i true → resumed.Delivered content resume) :
    (call.settleDirect i result written resume).Correct content := by
  have fits : written.length ≤ (call.window i).length :=
    Nat.le_trans reads.length_le (Nat.min_le_left _ _)
  have framed := correct.framed.write_window fits
  simp only [Call.settleDirect]
  split
  · rename_i succeeded
    refine ⟨correct.sized, framed, resumes _ ?_ rfl⟩
    have ok : result.status.code = .ok := by
      simp only [readDirect] at succeeded
      split at succeeded
      · rename_i failed
        rw [succeeded] at failed
        cases failed
      · rename_i ok
        simpa using ok
    intro position within resolved
    rw [(reads.of_ok ok).1]
    exact filled.write_window admitted correct.sized within resolved
  · exact ⟨correct.sized, framed, trivial⟩

/-! ### The steps -/

variable {store : BlockCache}

variable (correct : call.Correct content)

include correct

theorem Correct.served (filled : call.Filled content)
    (admitted : call.Admitted) (serves : call.StoreServes content store)
    (resident : store.lookup (call.key (call.span.first + i)) = some (.resident bytes))
    (length : bytes.length = (call.extent (call.span.first + i)).length) :
    (call.resolve i bytes).Framed ∧ (call.resolve i bytes).Filled content := by
  have ofContent := serves _ _ resident length
  exact ⟨correct.framed.resolve ofContent, filled.resolve admitted correct.sized ofContent⟩

theorem Correct.planned (filled : call.Filled content) : call.planned.Correct content := by
  simp only [Call.planned]
  split
  · split <;> exact ⟨correct.sized, correct.framed, filled⟩
  · exact ⟨correct.sized, correct.framed, filled⟩

theorem Correct.acquireStep (admitted : call.Admitted)
    (serves : call.StoreServes content store) (place : call.pc = .acquire i) :
    (call.acquireStep store i).1.Correct content := by
  have filled : call.Filled content := correct.delivered_at place
  simp only [Call.acquireStep]
  split
  · split
    · exact ⟨correct.sized, correct.framed, filled⟩
    · rcases store.acquire_cases (call.key (call.span.first + i)) with
        ⟨block, hit, resident, _⟩ | ⟨busy, _⟩ | ⟨owned, _⟩
      · rw [hit]
        simp only [acquired]
        split
        · rename_i length
          rcases correct.served filled admitted serves resident length with ⟨framed, filled⟩
          exact ⟨correct.sized, framed, filled⟩
        · exact ⟨correct.sized, correct.framed, filled⟩
      · rw [busy]
        exact ⟨correct.sized, correct.framed, filled⟩
      · rw [owned]
        exact ⟨correct.sized, correct.framed, filled⟩
  · simp only [acquireDone]
    split
    · exact ⟨correct.sized, correct.framed, filled⟩
    · exact correct.planned filled

theorem Correct.publishedLoaded (valid : call.Valid)
    (admitted : call.Admitted) {payload : Bytes} {todo : List ℕ}
    (place : call.pc = .publishLoaded block payload todo) (evicted : ℕ) :
    (call.publishedLoaded block payload todo evicted).Correct content := by
  have placed := valid.placed_at place
  have delivered := correct.delivered_at place
  have onward := (valid.inside block (List.Sublist.subset placed List.mem_cons_self)).1
  have ofContent :
      payload = call.blockOf content (call.span.first + (block - call.span.first)) := by
    rw [Nat.add_sub_cancel' onward]
    exact delivered.2
  exact ⟨correct.sized, correct.framed.resolve ofContent,
    delivered.1.resolve admitted correct.sized ofContent⟩

theorem Correct.fetched (place : call.pc = .fetch (run :: runs))
    (reads : ReadsContent content run.offset run.length result written) :
    (call.fetched run runs result written).Correct content := by
  have filled : call.Filled content := correct.delivered_at place
  simp only [Call.fetched]
  split
  · exact ⟨correct.sized, correct.framed, trivial⟩
  · rename_i ok
    split
    · exact ⟨correct.sized, correct.framed, trivial⟩
    · rename_i whole
      rcases reads.of_ok (by simpa using ok) with ⟨written_eq, count⟩
      refine ⟨correct.sized, correct.framed, filled, ?_⟩
      have nothing : run.length - written.length = 0 := by omega
      rw [nothing, List.replicate_zero, List.append_nil, written_eq]

theorem Correct.publishStep {transfer : Bytes} {taken : ℕ}
    (place : call.pc = .publishFetched run transfer taken runs) (store : BlockCache) :
    (call.publishStep store run transfer taken runs).1.Correct content := by
  have delivered := correct.delivered_at place
  simp only [Call.publishStep]
  split
  · exact ⟨correct.sized, correct.framed, delivered.1, delivered.2⟩
  · exact ⟨correct.sized, correct.framed, delivered.1⟩

theorem Correct.persistStep (valid : call.Valid)
    (admitted : call.Admitted) {transfer : Bytes} {taken : ℕ}
    (place : call.pc = .persist block run transfer taken runs)
    (stepped : call.persistStep block run transfer taken runs answer = some next) :
    next.Correct content := by
  have placed := valid.placed_at place
  have delivered := correct.delivered_at place
  rcases placed with ⟨first, last, group, rest, fetching, lower, upper, onward⟩
  have ofContent : call.blockBytes run transfer block =
      call.blockOf content (call.span.first + (block - call.span.first)) := by
    rw [Nat.add_sub_cancel' onward, delivered.2]
    exact fetching.blockBytes admitted lower upper
  rcases persistStep_eq stepped with ⟨stored, rfl⟩
  exact ⟨correct.sized, correct.framed.resolve ofContent,
    delivered.1.resolve admitted correct.sized ofContent, delivered.2⟩

theorem Correct.awaited (admitted : call.Admitted)
    (serves : call.StoreServes content store) {todo : List ℕ}
    (place : call.pc = .await (i :: todo)) {outcome : Option Bytes × BlockCache}
    (awaited : store.await (call.key (call.span.first + i)) = some outcome) :
    (call.awaited i todo outcome.1).Correct content := by
  have filled : call.Filled content := correct.delivered_at place
  rcases BlockCache.await_some awaited with ⟨rfl, _⟩ | ⟨block, rfl, resident⟩
  · exact ⟨correct.sized, correct.framed, filled⟩
  · simp only [Call.awaited]
    split
    · rename_i length
      rcases correct.served filled admitted serves resident length with ⟨framed, filled⟩
      exact ⟨correct.sized, framed, filled⟩
    · exact ⟨correct.sized, correct.framed, filled⟩

theorem Correct.passDone (filled : call.Filled content)
    (last : Bool) : (call.passDone last).Correct content := by
  simp only [Call.passDone]
  split
  · exact ⟨correct.sized, correct.framed, filled, by simp⟩
  · exact ⟨correct.sized, correct.framed, filled⟩

theorem Correct.finished (filled : call.Filled content)
    (admitted : call.Admitted) (resolved : ∀ j < call.span.count, call.resolved j = true) :
    call.finished.Correct content := by
  refine ⟨correct.sized, correct.framed, ?_⟩
  have stillAdmitted : call.finished.Admitted := admitted
  apply stillAdmitted.answered correct.sized
  simp only [Call.finished]
  intro ok
  split at ok
  · cases ok
  · rename_i complete
    rw [if_neg complete]
    have transfer := admitted.1
    rw [range, ← correct.sized] at transfer
    have length : call.range.length =
        (resolveReadRange call.request.offset call.request.size content.length).length := by
      rw [range, correct.sized]
    refine returns_of_copied transfer admitted.2 rfl length ?_
    intro position counted
    have lands := call.block_mem_span counted
    change content[call.request.offset + position]? = some (call.dst position)
    rw [← range_offset call]
    apply filled position counted
    apply resolved
    exact admitted.lt_count_iff.mpr (by rw [Nat.add_sub_cancel' lands.1]; exact lands.2)

theorem Correct.directStep (admitted : call.Admitted)
    (place : call.pc = .direct i) (legal : call.Legal content answer)
    (stepped : call.directStep i answer = some next) : next.Correct content := by
  rcases correct.delivered_at place with ⟨filled, before⟩
  simp only [Call.directStep] at stepped
  split at stepped
  · split at stepped
    · rename_i resolved
      split at stepped
      · cases stepped
        exact ⟨correct.sized, correct.framed, filled, resolved_upTo resolved before⟩
      · cases stepped
    · split at stepped
      · cases stepped
        apply correct.settleDirect filled admitted (legal.read (by simp only [innerRead, place]))
        intro resumed resumedFilled resumedResolved
        refine ⟨resumedFilled, resolved_upTo ?_ ?_⟩
        · rw [resumedResolved, Function.update_self]
        · intro j lower
          rw [resumedResolved, Function.update_of_ne (Nat.ne_of_lt lower)]
          exact before j lower
      · cases stepped
  · rename_i past
    split at stepped
    · cases stepped
      apply correct.finished filled admitted
      intro j counted
      exact before j (by omega)
    · cases stepped

theorem Correct.bypassed (admitted : call.Admitted)
    (reads : ReadsContent content call.request.offset call.request.size result written) :
    Correct content { call with dst := call.dst.write 0 written, pc := .returned result } := by
  have transfer := admitted.1
  have length : call.range.length =
      min call.request.size (content.length - call.request.offset) := by
    rw [correct.sized]
    exact (resolveReadRange_transfer transfer).2.1
  rw [range, ← correct.sized] at transfer
  have fits := reads.length_le
  refine ⟨correct.sized, ?_, ?_⟩
  · intro position behind
    change call.range.length ≤ position at behind
    change call.dst.write 0 written position = call.request.dst position
    rw [Buffer.write_of_not_covers, correct.framed position behind]
    intro covers
    have := covers.2
    omega
  · have stillAdmitted : Admitted
        { call with dst := call.dst.write 0 written, pc := .returned result } := admitted
    apply stillAdmitted.answered correct.sized
    intro ok
    rcases reads.of_ok ok with ⟨written_eq, count⟩
    have whole : written.length = call.range.length := by rw [written_eq, length_slice, length]
    refine returns_of_copied transfer admitted.2 ok ?_ ?_
    · rw [count, whole, range, ← correct.sized]
    · intro position counted
      have copied : content[call.request.offset + position]? = some (call.dst.write
          (call.request.offset - call.request.offset)
          (slice content call.request.offset call.request.size) position) :=
        Buffer.write_slice (Nat.le_refl _) (Nat.le_add_right _ _) (by omega) (by omega)
      rw [Nat.sub_self, ← written_eq] at copied
      exact copied

/-! ### Any step -/

theorem Correct.advance (valid : call.Valid)
    (admitted : call.Admitted) (serves : call.StoreServes content store)
    (legal : call.Legal content answer) {outcome : Call × BlockCache}
    (stepped : call.advance store answer = some outcome) : outcome.1.Correct content := by
  have delivered := correct.delivered
  have placed := valid.placed
  simp only [Call.advance] at stepped
  split at stepped
  · rename_i i place
    cases stepped
    exact correct.acquireStep admitted serves place
  · rename_i i result written place
    cases stepped
    rw [place] at delivered
    apply correct.settleDirect delivered admitted (legal.read (by simp only [innerRead, place]))
    intro resumed filled _
    exact filled
  · rename_i place
    cases stepped
    rw [place] at delivered
    exact correct.planned delivered
  · rename_i block todo payload place
    cases stepped
    rw [place] at delivered
    cases payload with
    | none => exact ⟨correct.sized, correct.framed, delivered⟩
    | some payload =>
      exact ⟨correct.sized, correct.framed, delivered, legal.loaded (by simp only [loads, place])⟩
  · rename_i block payload todo place
    cases stepped
    exact correct.publishedLoaded valid admitted place _
  · rename_i place
    cases stepped
    rw [place] at delivered
    exact ⟨correct.sized, correct.framed, delivered⟩
  · rename_i run runs result written place
    cases stepped
    exact correct.fetched place (legal.read (by simp only [innerRead, place]))
  · rename_i run transfer taken runs place
    cases stepped
    exact correct.publishStep place store
  · rename_i block run transfer taken runs place
    rcases Option.map_eq_some_iff.mp stepped with ⟨next, persisted, rfl⟩
    exact correct.persistStep valid admitted place persisted
  · rename_i result place
    cases stepped
    rw [place] at placed
    exact ⟨correct.sized, correct.framed, fun ok => absurd ok placed,
      fun refused => absurd (admitted.not_refused correct.sized) refused⟩
  · rename_i place
    cases stepped
    rw [place] at delivered
    exact ⟨correct.sized, correct.framed, delivered⟩
  · rename_i i todo place
    rcases Option.map_eq_some_iff.mp stepped with ⟨checked, awaited, rfl⟩
    exact correct.awaited admitted serves place awaited
  · rename_i last place
    cases stepped
    rw [place] at delivered
    exact correct.passDone delivered last
  · rename_i i place
    rcases Option.map_eq_some_iff.mp stepped with ⟨next, direct, rfl⟩
    exact correct.directStep admitted place legal direct
  · rename_i result written place
    cases stepped
    exact correct.bypassed admitted (legal.read (by simp only [innerRead, place]))
  · cases stepped

/-- Every step of a call whose surroundings answer with the content keeps it correct. -/
theorem Correct.step (valid : call.Valid)
    (serves : call.StoreServes content store) {answer : Answer}
    (legal : call.Legal content answer) {outcome : Call × BlockCache}
    (stepped : call.step store answer = some outcome) : outcome.1.Correct content := by
  have admitted := valid.admitted (not_returned_of_step stepped)
  cases hands : call.handsBack with
  | true =>
    simp only [Call.step, hands, if_true] at stepped
    split at stepped
    · cases stepped
      -- Handing back touches neither the memory nor the place.
      refine ⟨correct.sized, correct.framed, ?_⟩
      have delivered := correct.delivered
      change call.handedBack.Delivered content call.pc
      cases place : call.pc with
      | giveUp result => trivial
      | mismatch | endPass =>
        rw [place] at delivered
        exact delivered
      | _ => simp [handsBack, place] at hands
    · cases stepped
  | false =>
    simp only [Call.step, hands] at stepped
    exact correct.advance valid admitted serves legal stepped

theorem Correct.publication (valid : call.Valid)
    (admitted : call.Admitted) (publishes : call.publication = some (block, bytes)) :
    bytes = call.blockOf content block := by
  have delivered := correct.delivered
  have placed := valid.placed
  simp only [Call.publication] at publishes
  split at publishes
  · rename_i payload _ place
    cases publishes
    rw [place] at delivered
    exact delivered.2
  · rename_i run transfer taken runs place
    rw [place] at delivered placed
    split at publishes
    · rename_i inRun
      cases publishes
      rcases placed with ⟨first, last, group, rest, fetching⟩
      rcases fetching.cases with ⟨_, more, rfl, _⟩ | ⟨past, _⟩
      · have bounds := fetching.grouped _ List.mem_cons_self
        rw [delivered.2]
        exact fetching.blockBytes admitted bounds.1 bounds.2
      · rw [past] at inRun
        cases inRun
    · cases publishes
  · cases publishes

end Call

end UsdAsset.Cache
