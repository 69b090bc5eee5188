import Mathlib.Algebra.Ring.Nat

/-!
# Machines that take one event at a time

A machine is a partial step function: an event that cannot be taken in a state
leads nowhere.  A property that holds at the start and is kept by every step
holds in every state a run reaches, and a property that is kept only where the
environment behaves holds along every run in which it does.
-/

namespace Machine

universe u v

variable {State : Type u} {Event : Type v}

/-- The state after a sequence of events, if each of them could be taken. -/
def run (step : State → Event → Option State) : State → List Event → Option State
  | state, [] => some state
  | state, event :: rest => (step state event).bind fun next => run step next rest

/-- Along the run, every event is allowed in the state it is taken in. -/
def AllowedRun (step : State → Event → Option State) (allowed : State → Event → Prop) :
    State → List Event → Prop
  | _, [] => True
  | state, event :: rest =>
      allowed state event ∧ ∀ next ∈ step state event, AllowedRun step allowed next rest

/-- In every state the run is in, something holds. -/
def Throughout (step : State → Event → Option State) (holds : State → Prop) :
    State → List Event → Prop
  | state, [] => holds state
  | state, event :: rest => holds state ∧ ∀ next ∈ step state event, Throughout step holds next rest

instance decidableAllowedRun (step : State → Event → Option State)
    (allowed : State → Event → Prop) [∀ state event, Decidable (allowed state event)] :
    ∀ state events, Decidable (AllowedRun step allowed state events)
  | _, [] => inferInstanceAs (Decidable True)
  | state, event :: rest =>
      have (next : State) : Decidable (AllowedRun step allowed next rest) :=
        decidableAllowedRun step allowed next rest
      inferInstanceAs (Decidable (_ ∧ ∀ next ∈ step state event, _))

section Runs

variable {step : State → Event → Option State} {start final : State} {events : List Event}
  {allowed : State → Event → Prop} {invariant : State → Prop} {holds : State → Prop}

theorem run_cons {event : Event} (taken : run step start (event :: events) = some final) :
    ∃ next, step start event = some next ∧ run step next events = some final :=
  Option.bind_eq_some_iff.mp taken

/-- An invariant of every allowed step holds after every allowed run. -/
theorem invariant_of_allowedRun
    (kept : ∀ {state event next}, invariant state → allowed state event →
      step state event = some next → invariant next)
    (initially : invariant start) (allowedRun : AllowedRun step allowed start events)
    (taken : run step start events = some final) : invariant final := by
  induction events generalizing start with
  | nil =>
    cases taken
    exact initially
  | cons event rest ih =>
    rcases run_cons taken with ⟨next, stepped, continued⟩
    apply ih _ (allowedRun.2 next stepped) continued
    exact kept initially allowedRun.1 stepped

/-- A run is allowed up to any of its states, and from there on. -/
theorem allowedRun_append {before after : List Event} :
    AllowedRun step allowed start (before ++ after) ↔
      AllowedRun step allowed start before ∧
        ∀ middle ∈ run step start before, AllowedRun step allowed middle after := by
  induction before generalizing start with
  | nil => simp [AllowedRun, run]
  | cons event rest ih =>
    simp only [List.cons_append, AllowedRun, ih, run, Option.mem_def, Option.bind_eq_some_iff]
    constructor
    · rintro ⟨now, later⟩
      refine ⟨⟨now, fun next stepped => (later next stepped).1⟩, ?_⟩
      rintro middle ⟨next, stepped, reached⟩
      exact (later next stepped).2 middle reached
    · rintro ⟨⟨now, first⟩, second⟩
      exact ⟨now, fun next stepped => ⟨first next stepped,
        fun middle reached => second middle ⟨next, stepped, reached⟩⟩⟩

theorem allowedRun_of_forall {allowed : Event → Prop} (every : ∀ event ∈ events, allowed event) :
    AllowedRun step (fun _ event => allowed event) start events := by
  induction events generalizing start with
  | nil => trivial
  | cons event rest ih =>
    rcases List.forall_mem_cons.mp every with ⟨first, later⟩
    exact ⟨first, fun _ _ => ih later⟩

/-- An invariant of every step holds after every run. -/
theorem invariant_of_run
    (kept : ∀ {state event next}, invariant state → step state event = some next → invariant next)
    (initially : invariant start) (taken : run step start events = some final) :
    invariant final := by
  induction events generalizing start with
  | nil =>
    cases taken
    exact initially
  | cons event rest ih =>
    rcases run_cons taken with ⟨next, stepped, continued⟩
    exact ih (kept initially stepped) continued

theorem Throughout.atStart (throughout : Throughout step holds start events) :
    holds start := by
  cases events with
  | nil => exact throughout
  | cons event rest => exact throughout.1

theorem Throughout.atEnd (throughout : Throughout step holds start events)
    (taken : run step start events = some final) : holds final := by
  induction events generalizing start with
  | nil =>
    cases taken
    exact throughout
  | cons event rest ih =>
    rcases run_cons taken with ⟨next, stepped, continued⟩
    exact ih (throughout.2 next stepped) continued

/-- What a step keeps exactly where it is allowed holds along the runs whose steps are allowed. -/
theorem throughout_iff_allowedRun
    (kept : ∀ {state event next}, invariant state → step state event = some next → invariant next)
    (exactly : ∀ {state event next}, invariant state → holds state →
      step state event = some next → (holds next ↔ allowed state event))
    (stuck : ∀ {state event}, step state event = none → allowed state event)
    (initially : invariant start) (holdsInitially : holds start) :
    Throughout step holds start events ↔ AllowedRun step allowed start events := by
  induction events generalizing start with
  | nil => exact ⟨fun _ => trivial, fun _ => holdsInitially⟩
  | cons event rest ih =>
    cases stepped : step start event with
    | none =>
      simp only [Throughout, AllowedRun, stepped]
      exact ⟨fun _ => ⟨stuck stepped, nofun⟩, fun _ => ⟨holdsInitially, nofun⟩⟩
    | some next =>
      have exact_ := exactly initially holdsInitially stepped
      simp only [Throughout, AllowedRun, stepped, Option.mem_some_iff, forall_eq']
      constructor
      · rintro ⟨_, throughout⟩
        exact ⟨exact_.mp throughout.atStart,
          (ih (kept initially stepped) throughout.atStart).mp throughout⟩
      · rintro ⟨allowedNow, allowedLater⟩
        exact ⟨holdsInitially,
          (ih (kept initially stepped) (exact_.mpr allowedNow)).mpr allowedLater⟩

/-- What holds of the past and the state, and is kept by every step, holds after every run. -/
theorem invariant_of_history {invariant : List Event → State → Prop} {past : List Event}
    (kept : ∀ {past state event next}, invariant past state → step state event = some next →
      invariant (past ++ [event]) next)
    (initially : invariant past start) (taken : run step start events = some final) :
    invariant (past ++ events) final := by
  induction events generalizing start past with
  | nil =>
    cases taken
    rw [List.append_nil]
    exact initially
  | cons event rest ih =>
    rcases run_cons taken with ⟨next, stepped, continued⟩
    rw [List.append_cons]
    exact ih (kept initially stepped) continued

end Runs

/-! ### Records by position: lists that grow at the end or change in one place -/

section Positions

variable {Item : Type u} {items : List Item} {item found : Item} {place index : ℕ}

theorem getElem?_append_singleton (present : (items ++ [item])[index]? = some found) :
    items[index]? = some found ∨ index = items.length ∧ found = item := by
  rcases Nat.lt_trichotomy index items.length with before | rfl | after
  · rw [List.getElem?_append_left before] at present
    exact Or.inl present
  · rw [List.getElem?_concat_length] at present
    exact Or.inr ⟨rfl, (Option.some.inj present).symm⟩
  · rw [List.getElem?_eq_none (by simp; omega)] at present
    cases present

theorem getElem?_append_of_some (item : Item) (present : items[index]? = some found) :
    (items ++ [item])[index]? = some found := by
  rw [List.getElem?_append_left (List.getElem?_eq_some_iff.mp present).1]
  exact present

theorem getElem?_set_cases (present : (items.set place item)[index]? = some found) :
    (index = place ∧ found = item) ∨ (index ≠ place ∧ items[index]? = some found) := by
  by_cases same : index = place
  · subst same
    rw [List.getElem?_set_self'] at present
    rcases Option.map_eq_some_iff.mp present with ⟨_, _, rfl⟩
    exact Or.inl ⟨rfl, rfl⟩
  · rw [List.getElem?_set_ne (Ne.symm same)] at present
    exact Or.inr ⟨same, present⟩

theorem any_set_of_eq {test : Item → Bool} (present : items[place]? = some found)
    (same : test item = test found) : (items.set place item).any test = items.any test := by
  induction items generalizing place with
  | nil => rfl
  | cons first rest ih =>
    cases place with
    | zero =>
      cases present
      simp [same]
    | succ place => simp [ih present]

theorem sum_map_set {amount : Item → ℕ} (present : items[place]? = some found) :
    ((items.set place item).map amount).sum + amount found =
      (items.map amount).sum + amount item := by
  induction items generalizing place with
  | nil => cases present
  | cons first rest ih =>
    cases place with
    | zero =>
      cases present
      simp only [List.set_cons_zero, List.map_cons, List.sum_cons]
      omega
    | succ place =>
      have kept := ih present
      simp only [List.set_cons_succ, List.map_cons, List.sum_cons]
      omega

theorem sum_map_set_add {Amount : Type v} [AddCommMonoid Amount] {amount : Item → Amount}
    {added : Amount} (present : items[place]? = some found)
    (adds : amount item = amount found + added) :
    ((items.set place item).map amount).sum = (items.map amount).sum + added := by
  induction items generalizing place with
  | nil => cases present
  | cons first rest ih =>
    cases place with
    | zero =>
      cases present
      rw [List.set_cons_zero, List.map_cons, List.sum_cons, adds, List.map_cons, List.sum_cons,
        add_assoc, add_comm added, ← add_assoc]
    | succ place =>
      rw [List.set_cons_succ, List.map_cons, List.sum_cons, ih present, List.map_cons,
        List.sum_cons, add_assoc]

end Positions

end Machine
