import Mathlib.Tactic.Common

namespace Raftiq

variable {ε α β : Type}

/-- What a successful sequence of two computations consists of. -/
theorem bind_eq_ok {first : Except ε α} {next : α → Except ε β} {result : β}
    (succeeded : first >>= next = .ok result) : ∃ value, first = .ok value ∧ next value = .ok result := by
  cases first with
  | error failure => cases succeeded
  | ok value => exact ⟨value, rfl, succeeded⟩

theorem map_eq_ok {first : Except ε α} {make : α → β} {result : β}
    (succeeded : first.map make = .ok result) : ∃ value, first = .ok value ∧ make value = result := by
  cases first with
  | error failure => cases succeeded
  | ok value => exact ⟨value, rfl, Except.ok.inj succeeded⟩

/-- The computation succeeds exactly under the condition, and then with this value. -/
def Yields (computation : Except ε α) (condition : Prop) (value : α) : Prop :=
  ∀ result, computation = .ok result ↔ condition ∧ result = value

namespace Yields

variable {computation : Except ε α} {condition other : Prop} {value : α}

theorem pure (value : α) : Yields (.ok value : Except ε α) True value := by
  intro result
  rw [Except.ok.injEq, true_and, eq_comm]

theorem ok (yields : Yields computation condition value) (holds : condition) : computation = .ok value :=
  (yields value).mpr ⟨holds, rfl⟩

theorem error (yields : Yields computation condition value) (fails : ¬ condition) :
    ∃ failure, computation = .error failure := by
  cases found : computation with
  | error failure => exact ⟨failure, rfl⟩
  | ok result => exact absurd ((yields result).mp found).1 fails

theorem congr (yields : Yields computation condition value) (same : condition ↔ other) :
    Yields computation other value :=
  fun result => (yields result).trans (and_congr_left fun _ => same)

theorem bind {next : α → Except ε β} {final : β} (first : Yields computation condition value)
    (second : Yields (next value) other final) : Yields (computation >>= next) (condition ∧ other) final := by
  intro result
  by_cases holds : condition
  · rw [first.ok holds, and_iff_right holds]
    exact second result
  · obtain ⟨failure, failed⟩ := first.error holds
    rw [failed]
    constructor
    · intro impossible
      cases impossible
    · exact fun both => absurd both.1.1 holds

/-- The check passes for the value that is read. -/
theorem guard {check : Prop} [Decidable check] (failure : ε) (yields : Yields computation condition value) :
    Yields (if check then .error failure else computation) (¬ check ∧ condition) value := by
  intro result
  split
  · rename_i refused
    constructor
    · intro impossible
      cases impossible
    · exact fun both => absurd refused both.1.1
  · rename_i passed
    rw [and_iff_right passed]
    exact yields result

/-- A translation of results that keeps success and failure apart. -/
theorem through {δ : Type} (translate : Except ε α → Except δ β) {final : β}
    (yields : Yields computation condition value) (onOk : translate (.ok value) = .ok final)
    (onError : ∀ failure, ∃ other, translate (.error failure) = .error other) :
    Yields (translate computation) condition final := by
  intro result
  by_cases holds : condition
  · rw [yields.ok holds, onOk, and_iff_right holds, Except.ok.injEq, eq_comm]
  · obtain ⟨failure, failed⟩ := yields.error holds
    obtain ⟨other, translated⟩ := onError failure
    rw [failed, translated]
    constructor
    · intro impossible
      cases impossible
    · exact fun both => absurd both.1 holds

end Yields

end Raftiq
