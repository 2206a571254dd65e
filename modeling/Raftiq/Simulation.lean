import Raftiq.Run

namespace Raftiq

/-! One system in the terms of another. -/

variable {Concrete Abstract Action Move : Type*}

/-- Every allowed step of a system is a run of another one, between states that stand for each other. -/
def Simulates (step : Concrete → Action → Option Concrete) (allowed : Concrete → Action → Prop)
    (move : Abstract → Move → Option Abstract) (shows : Concrete → Abstract → Prop) : Prop :=
  ∀ before action after shown, shows before shown → allowed before action → step before action = some after →
    ∃ next, Reaches move (fun _ _ => True) shown next ∧ shows after next

variable {step : Concrete → Action → Option Concrete} {allowed : Concrete → Action → Prop}
  {move : Abstract → Move → Option Abstract} {shows : Concrete → Abstract → Prop}
  {start final : Concrete} {first : Abstract}

theorem Simulates.reaches (simulates : Simulates step allowed move shows) (initially : shows start first)
    (reached : Reaches step allowed start final) :
    ∃ last, Reaches move (fun _ _ => True) first last ∧ shows final last := by
  refine reached.invariant (fun state => ∃ last, Reaches move (fun _ _ => True) first last ∧ shows state last)
    ⟨first, .start, initially⟩ ?_
  rintro before action after ⟨last, earlier, shown⟩ permitted stepped
  obtain ⟨next, onward, shownAfter⟩ := simulates before action after last shown permitted stepped
  exact ⟨next, earlier.trans onward, shownAfter⟩

end Raftiq
