import Mathlib.Data.Set.Basic
import Mathlib.Logic.Function.Basic

namespace Raftiq.Consensus

/-! Votes that were ever cast, at most one for each node and term. -/

variable {N : Type*}

abbrev Ballots (N : Type*) := N → ℕ → Option N

namespace Ballots

def Extends (ballots later : Ballots N) : Prop :=
  ∀ v t c, ballots v t = some c → later v t = some c

def Wins (quorum : Set N → Prop) (ballots : Ballots N) (t : ℕ) (c : N) : Prop :=
  ∃ votes, quorum votes ∧ ∀ v ∈ votes, ballots v t = some c

variable {quorum : Set N → Prop} {ballots later final : Ballots N} {v c : N} {t : ℕ}

theorem Extends.refl (ballots : Ballots N) : ballots.Extends ballots :=
  fun _ _ _ cast => cast

theorem Extends.trans (first : ballots.Extends later) (second : later.Extends final) :
    ballots.Extends final :=
  fun v t c cast => second v t c (first v t c cast)

theorem Wins.mono (wins : Wins quorum ballots t c) (extends_ : ballots.Extends later) :
    Wins quorum later t c := by
  obtain ⟨votes, enough, cast⟩ := wins
  exact ⟨votes, enough, fun v member => extends_ v t c (cast v member)⟩

/-- Two quorums share a node, and that node has voted once. -/
theorem Wins.unique {quorums : Set N → Prop}
    (intersects : ∀ left right, quorum left → quorums right → ∃ v, v ∈ left ∧ v ∈ right)
    {other : N} (wins : Wins quorum ballots t c) (winsToo : Wins quorums ballots t other) : c = other := by
  obtain ⟨votes, enough, cast⟩ := wins
  obtain ⟨others, enoughToo, castToo⟩ := winsToo
  obtain ⟨v, left, right⟩ := intersects _ _ enough enoughToo
  have once := cast v left
  rw [castToo v right] at once
  exact (Option.some.inj once).symm

variable [DecidableEq N]

def cast (ballots : Ballots N) (v : N) (t : ℕ) (c : N) : Ballots N :=
  Function.update ballots v (Function.update (ballots v) t (some c))

@[simp] theorem cast_self (ballots : Ballots N) (v : N) (t : ℕ) (c : N) :
    ballots.cast v t c v t = some c := by
  simp [cast]

theorem cast_of_ne {w : N} (other : w ≠ v) : ballots.cast v t c w = ballots w := by
  simp [cast, other]

theorem cast_other_term {u : ℕ} (other : u ≠ t) : ballots.cast v t c v u = ballots v u := by
  simp [cast, other]

theorem extends_cast (free : ∀ other, ballots v t = some other → other = c) :
    ballots.Extends (ballots.cast v t c) := by
  intro w u other voted
  by_cases same : w = v
  · subst same
    by_cases now : u = t
    · subst now
      rw [cast_self, free other voted]
    · rw [cast_other_term now]
      exact voted
  · rw [cast_of_ne same]
    exact voted

end Ballots

end Raftiq.Consensus
