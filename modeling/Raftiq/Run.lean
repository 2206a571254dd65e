import Mathlib.Logic.Basic

namespace Raftiq

/-! Runs of a system that is given by a partial step function. -/

variable {State Action : Type*} (step : State → Action → Option State)

/-- The states that runs from `start` lead to when every action is allowed where it is taken. -/
inductive Reaches (allowed : State → Action → Prop) (start : State) : State → Prop where
  | start : Reaches allowed start start
  | step {before after : State} (action : Action) (earlier : Reaches allowed start before)
      (permitted : allowed before action) (stepped : step before action = some after) :
      Reaches allowed start after

/-- Executes the actions, provided all of them are allowed, and tests the state they lead to. -/
def leadsTo (allowed : State → Action → Bool) (goal : State → Prop) [DecidablePred goal] :
    State → List Action → Bool
  | state, [] => decide (goal state)
  | state, action :: rest =>
      allowed state action &&
        match step state action with
        | none => false
        | some after => leadsTo allowed goal after rest

variable {step} {allowed : State → Action → Prop} {start middle final : State}

theorem Reaches.trans (first : Reaches step allowed start middle)
    (second : Reaches step allowed middle final) : Reaches step allowed start final := by
  induction second with
  | start => exact first
  | step action _ permitted stepped ih => exact .step action ih permitted stepped

theorem Reaches.mono {wider : State → Action → Prop}
    (weaker : ∀ state action, allowed state action → wider state action)
    (reached : Reaches step allowed start final) : Reaches step wider start final := by
  induction reached with
  | start => exact .start
  | step action _ permitted stepped ih => exact .step action ih (weaker _ _ permitted) stepped

/-- A property that holds at the start and that allowed steps preserve holds throughout. -/
theorem Reaches.invariant (inv : State → Prop) (initially : inv start)
    (preserved : ∀ before action after, inv before → allowed before action →
      step before action = some after → inv after)
    (reached : Reaches step allowed start final) : inv final := by
  induction reached with
  | start => exact initially
  | step action _ permitted stepped ih => exact preserved _ action _ ih permitted stepped

theorem Reaches.of_leadsTo (check : State → Action → Bool) {goal : State → Prop} [DecidablePred goal]
    (sound : ∀ state action, check state action → allowed state action) (actions : List Action)
    (leads : leadsTo step check goal start actions) :
    ∃ final, Reaches step allowed start final ∧ goal final := by
  induction actions generalizing start with
  | nil => exact ⟨start, .start, of_decide_eq_true leads⟩
  | cons action rest ih =>
      simp only [leadsTo, Bool.and_eq_true] at leads
      cases stepped : step start action with
      | none => simp [stepped] at leads
      | some after =>
          rw [stepped] at leads
          obtain ⟨final, reached, reachesGoal⟩ := ih leads.2
          have first := Reaches.step action .start (sound _ _ leads.1) stepped
          exact ⟨final, first.trans reached, reachesGoal⟩

/-- The same for two moments of one run. -/
theorem Reaches.of_leadsTo_twice (check : State → Action → Bool) {goal : State → State → Prop}
    [∀ middle, DecidablePred (goal middle)]
    (sound : ∀ state action, check state action → allowed state action) (first second : List Action)
    (leads : leadsTo step check (fun middle => leadsTo step check (goal middle) middle second) start
      first) :
    ∃ middle final, Reaches step allowed start middle ∧ Reaches step allowed middle final ∧
      goal middle final := by
  obtain ⟨middle, reached, later⟩ := Reaches.of_leadsTo check sound first leads
  obtain ⟨final, reachedLater, holds⟩ := Reaches.of_leadsTo check sound second later
  exact ⟨middle, final, reached, reachedLater, holds⟩

end Raftiq
