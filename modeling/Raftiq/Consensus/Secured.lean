import Raftiq.Consensus.Replication

namespace Raftiq.Consensus

open Stamped

variable {N E : Type*} [Stamped E]

namespace Ledger

variable {h later : Ledger N E} {quorum : Set N → Prop} {t m : ℕ}

/-- Two rooted logs with entries of one term at one position agree up to there. -/
theorem Rooted.agree {left right front other : List E} {last end_ : E} (rooted : h.Rooted left)
    (rootedToo : h.Rooted right) (inside : front ++ [last] <+: left) (insideToo : other ++ [end_] <+: right)
    (length : front.length = other.length) (same : stamp last = stamp end_) :
    front ++ [last] = other ++ [end_] := by
  have below := (rooted front last inside).2
  have belowToo := (rootedToo other end_ insideToo).2
  rw [same] at below
  apply List.IsPrefix.eq_of_length
  · apply List.prefix_of_prefix_length_le below belowToo
    simp [length]
  · simp [length]

/-- A prefix of a committed one, from a term that is not after the bound. -/
def Secured (h : Ledger N E) (quorum : Set N → Prop) (bound : ℕ) (front : List E) : Prop :=
  front = [] ∨ ∃ t i, h.Committed quorum t i ∧ t ≤ bound ∧ front.length ≤ i ∧ front <+: h.led t

variable {bound wider : ℕ} {front other log : List E}

theorem Secured.nil : h.Secured quorum bound [] := Or.inl rfl

theorem Secured.mono (secured : h.Secured quorum bound front) (keeps : h.Extends later)
    (reached : bound ≤ wider) : later.Secured quorum wider front := by
  cases secured with
  | inl empty => exact Or.inl empty
  | inr committed =>
      obtain ⟨t, i, committed, early, short, inside⟩ := committed
      exact Or.inr ⟨t, i, keeps.committed committed, early.trans reached, short,
        inside.trans (keeps.led_front t)⟩

theorem Secured.of_front (secured : h.Secured quorum bound front) (below : other <+: front) :
    h.Secured quorum bound other := by
  cases secured with
  | inl empty =>
      subst empty
      exact Or.inl (List.prefix_nil.mp below)
  | inr committed =>
      obtain ⟨t, i, committed, early, short, inside⟩ := committed
      exact Or.inr ⟨t, i, committed, early, below.length_le.trans short, below.trans inside⟩

theorem Secured.rooted (secured : h.Secured quorum bound front) (sound : h.Sound quorum) :
    h.Rooted front := by
  cases secured with
  | inl empty =>
      subst empty
      intro front last inside
      simp at inside
  | inr committed =>
      obtain ⟨t, i, committed, _, _, inside⟩ := committed
      exact (sound.led_rooted t).of_front inside

section Intersecting

variable (sound : h.Sound quorum)
  (intersects : ∀ left right, quorum left → quorum right → ∃ v, v ∈ left ∧ v ∈ right)

include sound intersects

/-- A secured prefix lies in the log of every later leader. -/
theorem Secured.inside_led (secured : h.Secured quorum bound front) (later : bound ≤ t)
    (leads : (h.leader t).isSome) : front <+: h.led t := by
  cases secured with
  | inl empty => exact empty ▸ List.nil_prefix
  | inr committed =>
      obtain ⟨u, i, committed, early, short, inside⟩ := committed
      have carries := sound.committed_carries intersects committed (early.trans later) leads
      have taken : front <+: (h.led u).take i := List.prefix_take_iff.mpr ⟨inside, short⟩
      exact taken.trans carries

theorem Secured.comparable (secured : h.Secured quorum bound front)
    (securedToo : h.Secured quorum wider other) : front <+: other ∨ other <+: front := by
  cases secured with
  | inl empty => exact Or.inl (empty ▸ List.nil_prefix)
  | inr committed =>
      cases securedToo with
      | inl empty => exact Or.inr (empty ▸ List.nil_prefix)
      | inr committedToo =>
          obtain ⟨t, i, committed, _, short, inside⟩ := committed
          obtain ⟨u, j, committedToo, _, shortToo, insideToo⟩ := committedToo
          rcases Nat.le_total t u with earlier | later
          · have carries := sound.committed_carries intersects committed earlier
              (committedToo.1.leader sound)
            have taken : front <+: (h.led t).take i := List.prefix_take_iff.mpr ⟨inside, short⟩
            exact List.prefix_or_prefix_of_prefix (taken.trans carries) insideToo
          · have carries := sound.committed_carries intersects committedToo later
              (committed.1.leader sound)
            have taken : other <+: (h.led u).take j := List.prefix_take_iff.mpr ⟨insideToo, shortToo⟩
            exact List.prefix_or_prefix_of_prefix inside (taken.trans carries)

/-- Copying from a later leader keeps what is secured. -/
theorem Secured.prefix_merge (secured : h.Secured quorum bound front) (inside : front <+: log)
    (later : bound ≤ t) (leads : (h.leader t).isSome) : front <+: merge log ((h.led t).take m) := by
  have below := secured.inside_led sound intersects later leads
  exact prefix_merge_of_comparable inside
    (List.prefix_or_prefix_of_prefix below (List.take_prefix _ _))

/-- A secured prefix that holds an entry of its last term was committed in that term. -/
theorem Secured.committed_of_marks (secured : h.Secured quorum bound front)
    (leads : (h.leader bound).isSome) {i : ℕ} (marks : h.Marks bound i) (reached : i ≤ front.length) :
    ∃ j, i ≤ j ∧ h.Committed quorum bound j := by
  have below := secured.inside_led sound intersects le_rfl leads
  obtain ⟨before, last, inside, length, own⟩ := marks
  have held : before ++ [last] <+: front := by
    apply List.prefix_of_prefix_length_le inside below
    rw [List.length_append, List.length_singleton]
    omega
  cases secured with
  | inl empty => simp [empty] at held
  | inr committed =>
      obtain ⟨t, j, committed, early, short, source⟩ := committed
      have late := sound.led_bounded t last ((held.trans source).subset (by simp))
      have same : t = bound := by omega
      exact ⟨j, by omega, same ▸ committed⟩

end Intersecting

end Ledger

end Raftiq.Consensus
