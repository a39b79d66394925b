import StackSynth.FileSystem.Change

/-!
# Action — how the parts of an action end

An action that is put together from others ends well if all of its parts do, and ends badly where
the first of them does.  The laws here take a run of a composed action apart.

* `bind_eq_ok_iff`, `mapError_eq_ok_iff` — results without the file system;
* `Action.bind_ok_iff`, `bind_error_iff` — one action after another;
* `Action.query_ok_iff`, `step_ok_iff`, `mapError_ok_iff`, `onFailure_ok_iff` and the same for
  failures — the other ways to make an action;
* `Action.Ends` — a run that ends in either way, with `ends_bind` and one law for each part;
* `Action.foldlM_ok`, `foldlM_error` — loops.
-/

namespace StackSynth

theorem bind_eq_ok_iff {α β ε : Type} {first : Except ε α} {rest : α → Except ε β} {value : β} :
    (first >>= rest) = .ok value ↔ ∃ x, first = .ok x ∧ rest x = .ok value := by
  cases first <;> simp [bind, Except.bind]

theorem mapError_eq_ok_iff {α ε φ : Type} {result : Except ε α} {f : ε → φ} {value : α} :
    result.mapError f = .ok value ↔ result = .ok value := by
  cases result with
  | error => exact ⟨nofun, nofun⟩
  | ok => exact ⟨fun | rfl => rfl, fun | rfl => rfl⟩

namespace Action

variable {ε φ α β : Type} {fs after : FileSystem}

/-! ## Parts -/

theorem bind_ok_iff {action : Action ε α} {next : α → Action ε β} {value : β} :
    (action >>= next) fs = .ok value after
      ↔ ∃ x mid, action fs = .ok x mid ∧ next x mid = .ok value after := by
  show EStateM.bind action next fs = _ ↔ _
  unfold EStateM.bind
  cases action fs <;> simp [and_assoc]

theorem bind_error_iff {action : Action ε α} {next : α → Action ε β} {e : ε} :
    (action >>= next) fs = .error e after
      ↔ action fs = .error e after ∨ ∃ x mid, action fs = .ok x mid ∧ next x mid = .error e after := by
  show EStateM.bind action next fs = _ ↔ _
  unfold EStateM.bind
  cases action fs <;> simp [and_assoc]

theorem pure_ok_iff {value x : α} :
    (pure x : Action ε α) fs = .ok value after ↔ x = value ∧ fs = after := by
  show EStateM.Result.ok x fs = _ ↔ _
  simp

theorem pure_error_iff {x : α} {e : ε} : (pure x : Action ε α) fs = .error e after ↔ False := by
  show EStateM.Result.ok x fs = _ ↔ _
  simp

theorem modify_ok_iff {change : FileSystem → FileSystem} {value : PUnit} :
    (modify change : Action ε PUnit) fs = .ok value after ↔ change fs = after := by
  show EStateM.Result.ok _ _ = _ ↔ _
  simp

theorem modify_error_iff {change : FileSystem → FileSystem} {e : ε} :
    (modify change : Action ε PUnit) fs = .error e after ↔ False := by
  show EStateM.Result.ok _ _ = _ ↔ _
  simp

theorem query_ok_iff {f : FileSystem → Except ε α} {value : α} :
    query f fs = .ok value after ↔ f fs = .ok value ∧ fs = after := by
  unfold query
  cases f fs <;> simp

theorem query_error_iff {f : FileSystem → Except ε α} {e : ε} :
    query f fs = .error e after ↔ f fs = .error e ∧ fs = after := by
  unfold query
  cases f fs <;> simp

theorem ofExcept_ok_iff {result : Except ε α} {value : α} :
    ofExcept result fs = .ok value after ↔ result = .ok value ∧ fs = after :=
  query_ok_iff

theorem ofExcept_error_iff {result : Except ε α} {e : ε} :
    ofExcept result fs = .error e after ↔ result = .error e ∧ fs = after :=
  query_error_iff

theorem step_ok_iff {f : FileSystem → Except ε FileSystem} {value : Unit} :
    step f fs = .ok value after ↔ f fs = .ok after := by
  unfold step
  cases f fs <;> simp

theorem step_error_iff {f : FileSystem → Except ε FileSystem} {e : ε} :
    step f fs = .error e after ↔ f fs = .error e ∧ fs = after := by
  unfold step
  cases f fs <;> simp

theorem mapError_ok_iff {f : ε → φ} {action : Action ε α} {value : α} :
    mapError f action fs = .ok value after ↔ action fs = .ok value after := by
  unfold mapError
  cases action fs <;> simp

theorem mapError_error_iff {f : ε → φ} {action : Action ε α} {e : φ} :
    mapError f action fs = .error e after ↔ ∃ cause, action fs = .error cause after ∧ f cause = e := by
  unfold mapError
  cases action fs <;> simp [and_left_comm, and_comm]

theorem onFailure_ok_iff {cleanup : FileSystem → FileSystem} {action : Action ε α} {value : α} :
    onFailure cleanup action fs = .ok value after ↔ action fs = .ok value after := by
  unfold onFailure
  cases action fs <;> simp

theorem onFailure_error_iff {cleanup : FileSystem → FileSystem} {action : Action ε α} {e : ε} :
    onFailure cleanup action fs = .error e after
      ↔ ∃ mid, action fs = .error e mid ∧ cleanup mid = after := by
  unfold onFailure
  cases action fs <;> simp [and_assoc]

/-! ## Runs that end in either way -/

/-- A run from `fs` ends at `after`, well or badly. -/
def Ends (action : Action ε α) (fs after : FileSystem) : Prop :=
  (∃ value, action fs = .ok value after) ∨ ∃ e, action fs = .error e after

theorem ends_bind {action : Action ε α} {next : α → Action ε β}
    (ends : Ends (action >>= next) fs after) :
    Ends action fs after ∨ ∃ x mid, action fs = .ok x mid ∧ Ends (next x) mid after := by
  rcases ends with ⟨value, run⟩ | ⟨e, run⟩
  · obtain ⟨x, mid, first, second⟩ := bind_ok_iff.mp run
    exact Or.inr ⟨x, mid, first, Or.inl ⟨value, second⟩⟩
  · rcases bind_error_iff.mp run with first | ⟨x, mid, first, second⟩
    · exact Or.inl (Or.inr ⟨e, first⟩)
    · exact Or.inr ⟨x, mid, first, Or.inr ⟨e, second⟩⟩

theorem ends_query {f : FileSystem → Except ε α} (ends : Ends (query f) fs after) : after = fs := by
  rcases ends with ⟨_, run⟩ | ⟨_, run⟩
  · exact (query_ok_iff.mp run).2.symm
  · exact (query_error_iff.mp run).2.symm

theorem ends_pure {x : α} (ends : Ends (pure x : Action ε α) fs after) : after = fs := by
  rcases ends with ⟨_, run⟩ | ⟨_, run⟩
  · exact (pure_ok_iff.mp run).2.symm
  · exact (pure_error_iff.mp run).elim

theorem ends_step {f : FileSystem → Except ε FileSystem} (ends : Ends (step f) fs after) :
    after = fs ∨ f fs = .ok after := by
  rcases ends with ⟨_, run⟩ | ⟨_, run⟩
  · exact Or.inr (step_ok_iff.mp run)
  · exact Or.inl (step_error_iff.mp run).2.symm

theorem ends_mapError {f : ε → φ} {action : Action ε α} (ends : Ends (mapError f action) fs after) :
    Ends action fs after := by
  rcases ends with ⟨value, run⟩ | ⟨_, run⟩
  · exact Or.inl ⟨value, mapError_ok_iff.mp run⟩
  · obtain ⟨cause, run, -⟩ := mapError_error_iff.mp run
    exact Or.inr ⟨cause, run⟩

theorem attempt_ok_iff {action : Action ε α} {value : Unit} :
    attempt action fs = .ok value after ↔ Ends action fs after := by
  unfold attempt Ends
  cases action fs <;> simp

theorem attempt_error_iff {action : Action ε α} {e : ε} :
    attempt action fs = .error e after ↔ False := by
  unfold attempt
  cases action fs <;> simp

/-! ## Loops -/

theorem foldlM_ok {f : β → α → Action ε β} {P : β → FileSystem → Prop}
    (step : ∀ {state x next mid later}, P state mid → f state x mid = .ok next later → P next later)
    {xs : List α} {state last : β} (begun : P state fs)
    (run : xs.foldlM f state fs = .ok last after) : P last after := by
  induction xs generalizing state fs with
  | nil =>
      obtain ⟨rfl, rfl⟩ := pure_ok_iff.mp run
      exact begun
  | cons x xs ih =>
      rw [List.foldlM_cons] at run
      obtain ⟨next, mid, first, others⟩ := bind_ok_iff.mp run
      exact ih (step begun first) others

/-- A loop that fails has done what comes before the failure. -/
theorem foldlM_error {f : β → α → Action ε β} {xs : List α} {state : β} {e : ε}
    (run : xs.foldlM f state fs = .error e after) :
    ∃ front x back last mid, xs = front ++ x :: back ∧ front.foldlM f state fs = .ok last mid
      ∧ f last x mid = .error e after := by
  induction xs generalizing state fs with
  | nil => exact (pure_error_iff.mp run).elim
  | cons x xs ih =>
      rw [List.foldlM_cons] at run
      rcases bind_error_iff.mp run with failed | ⟨next, mid, first, others⟩
      · exact ⟨[], x, xs, state, fs, rfl, pure_ok_iff.mpr ⟨rfl, rfl⟩, failed⟩
      · obtain ⟨front, y, back, last, there, rfl, done, failed⟩ := ih others
        refine ⟨x :: front, y, back, last, there, rfl, ?_, failed⟩
        rw [List.foldlM_cons]
        exact bind_ok_iff.mpr ⟨next, mid, first, done⟩

end Action
end StackSynth
