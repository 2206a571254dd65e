import Raftiq.Consensus.Extension
import Mathlib.Logic.Function.Basic
import Mathlib.Tactic.Simps.Basic

namespace Raftiq.Consensus

open Stamped

variable {N E : Type*} [Stamped E] [DecidableEq N]

namespace Ledger

/-- A node reaches a term as a follower. -/
@[simps] def advance (h : Ledger N E) (v : N) (t : ℕ) : Ledger N E :=
  { h with
    term := Function.update h.term v t
    stands := Function.update h.stands v False
    leads := Function.update h.leads v False }

/-- A node opens an election in a fresh term and votes for itself. -/
@[simps] def stand (h : Ledger N E) (c : N) (t : ℕ) : Ledger N E :=
  { h with
    term := Function.update h.term c t
    voted := Function.update h.voted c (Function.update (h.voted c) t (some c))
    stands := Function.update h.stands c True
    leads := Function.update h.leads c False }

@[simps] def vote (h : Ledger N E) (v c : N) : Ledger N E :=
  { h with voted := Function.update h.voted v (Function.update (h.voted v) (h.term v) (some c)) }

@[simps] def elect (h : Ledger N E) (c : N) (votes : Set N) : Ledger N E :=
  { h with
    leader := Function.update h.leader (h.term c) (some c)
    led := Function.update h.led (h.term c) (h.log c)
    electors := Function.update h.electors (h.term c) votes
    stands := Function.update h.stands c False
    leads := Function.update h.leads c True }

variable {h : Ledger N E} {quorum : Set N → Prop} {v c : N} {t : ℕ}

theorem advance_extends (ahead : h.term v ≤ t) : h.Extends (h.advance v t) where
  term_le w := by
    by_cases same : w = v
    · subst same
      simpa using ahead
    · simp [same]
  voted _ _ _ voted := voted
  leader _ _ leads := leads
  electors _ _ := rfl
  led_front _ := List.prefix_refl _
  led_added _ _ := ⟨[], by simp⟩
  acked _ _ _ acked := acked
  advertised c u log := by
    rintro ⟨reached, rooted, fresh, covered⟩
    by_cases same : c = v
    · subst same
      refine ⟨by simpa using reached.trans ahead, rooted, fresh, fun stands => ?_⟩
      simp at stands
    · refine ⟨by simpa [same] using reached, rooted, fresh, fun stands current => ?_⟩
      simp only [advance_stands, advance_term, Function.update_of_ne same] at stands current
      exact covered stands current

theorem advance_sound (sound : h.Sound quorum) (ahead : h.term v ≤ t) :
    (h.advance v t).Sound quorum where
  log_bounded w entry member :=
    (sound.log_bounded w entry member).trans ((advance_extends ahead).term_le w)
  led_bounded := sound.led_bounded
  log_rooted := sound.log_rooted
  led_rooted := sound.led_rooted
  led_empty := sound.led_empty
  stands_fresh c stands := by
    by_cases same : c = v
    · simp [same] at stands
    · simp only [advance_stands, advance_term, advance_log, Function.update_of_ne same] at stands ⊢
      exact sound.stands_fresh c stands
  voted_bounded w u c voted :=
    (sound.voted_bounded w u c voted).trans ((advance_extends ahead).term_le w)
  voted_reached w u c voted :=
    (sound.voted_reached w u c voted).trans ((advance_extends ahead).term_le c)
  leader_bounded u c leads :=
    (sound.leader_bounded u c leads).trans ((advance_extends ahead).term_le c)
  leads_leader w leads := by
    by_cases same : w = v
    · simp [same] at leads
    · simp only [advance_leads, advance_term, advance_leader, Function.update_of_ne same] at leads ⊢
      exact sound.leads_leader w leads
  leads_log w leads := by
    by_cases same : w = v
    · simp [same] at leads
    · simp only [advance_leads, advance_term, advance_log, advance_led,
        Function.update_of_ne same] at leads ⊢
      exact sound.leads_log w leads
  electors_quorum := sound.electors_quorum
  electors_voted := sound.electors_voted
  acked_bounded w u i acked := by
    obtain ⟨reached, rest⟩ := sound.acked_bounded w u i acked
    exact ⟨reached.trans ((advance_extends ahead).term_le w), rest⟩
  acked_kept w u i acked marks := by
    rcases sound.acked_kept w u i acked marks with carries | ⟨s, reached, fork⟩
    · exact Or.inl carries
    · exact Or.inr ⟨s, reached.trans ((advance_extends ahead).term_le w), fork⟩
  endorsed w c stands voted := by
    by_cases same : c = v
    · simp [same] at stands
    · simp only [advance_stands, advance_voted, advance_term, Function.update_of_ne same] at stands voted ⊢
      exact sound.endorsed w c stands voted
  elected := sound.elected

omit [Stamped E] in
theorem stand_voted_cases {w other : N} {u : ℕ} (voted : (h.stand c t).voted w u = some other) :
    h.voted w u = some other ∨ w = c ∧ u = t ∧ other = c := by
  by_cases same : w = c
  · subst same
    by_cases now : u = t
    · subst now
      simp only [stand_voted, Function.update_self, Option.some.injEq] at voted
      exact Or.inr ⟨rfl, rfl, voted.symm⟩
    · simp only [stand_voted, Function.update_self, Function.update_of_ne now] at voted
      exact Or.inl voted
  · simp only [stand_voted, Function.update_of_ne same] at voted
    exact Or.inl voted

theorem stand_extends (sound : h.Sound quorum) (ahead : h.term c < t) :
    h.Extends (h.stand c t) where
  term_le w := by
    by_cases same : w = c
    · subst same
      simpa using ahead.le
    · simp [same]
  voted w u other voted := by
    by_cases same : w = c
    · subst same
      have old := sound.voted_bounded w u other voted
      have unequal : u ≠ t := by omega
      simpa [unequal] using voted
    · simpa [same] using voted
  leader _ _ leads := leads
  electors _ _ := rfl
  led_front _ := List.prefix_refl _
  led_added _ _ := ⟨[], by simp⟩
  acked _ _ _ acked := acked
  advertised other u log := by
    rintro ⟨reached, rooted, fresh, covered⟩
    by_cases same : other = c
    · subst same
      refine ⟨by simpa using reached.trans ahead.le, rooted, fresh, fun _ current => ?_⟩
      simp only [stand_term, Function.update_self] at current
      omega
    · refine ⟨by simpa [same] using reached, rooted, fresh, fun stands current => ?_⟩
      simp only [stand_stands, stand_term, Function.update_of_ne same] at stands current
      exact covered stands current

theorem stand_sound (sound : h.Sound quorum) (ahead : h.term c < t) :
    (h.stand c t).Sound quorum where
  log_bounded w entry member :=
    (sound.log_bounded w entry member).trans ((stand_extends sound ahead).term_le w)
  led_bounded := sound.led_bounded
  log_rooted := sound.log_rooted
  led_rooted := sound.led_rooted
  led_empty := sound.led_empty
  stands_fresh other stands entry member := by
    by_cases same : other = c
    · subst same
      have bound := sound.log_bounded other entry member
      simp only [stand_term, Function.update_self]
      omega
    · simp only [stand_stands, stand_term, Function.update_of_ne same] at stands ⊢
      exact sound.stands_fresh other stands entry member
  voted_bounded w u other voted := by
    rcases stand_voted_cases voted with old | ⟨rfl, rfl, rfl⟩
    · exact (sound.voted_bounded w u other old).trans ((stand_extends sound ahead).term_le w)
    · simp
  voted_reached w u other voted := by
    rcases stand_voted_cases voted with old | ⟨rfl, rfl, rfl⟩
    · exact (sound.voted_reached w u other old).trans ((stand_extends sound ahead).term_le other)
    · simp
  leader_bounded u other leads :=
    (sound.leader_bounded u other leads).trans ((stand_extends sound ahead).term_le other)
  leads_leader w leads := by
    by_cases same : w = c
    · simp [same] at leads
    · simp only [stand_leads, stand_term, stand_leader, Function.update_of_ne same] at leads ⊢
      exact sound.leads_leader w leads
  leads_log w leads := by
    by_cases same : w = c
    · simp [same] at leads
    · simp only [stand_leads, stand_term, stand_log, stand_led, Function.update_of_ne same] at leads ⊢
      exact sound.leads_log w leads
  electors_quorum := sound.electors_quorum
  electors_voted u other leads w elector :=
    (stand_extends sound ahead).voted w u other (sound.electors_voted u other leads w elector)
  acked_bounded w u i acked := by
    obtain ⟨reached, rest⟩ := sound.acked_bounded w u i acked
    exact ⟨reached.trans ((stand_extends sound ahead).term_le w), rest⟩
  acked_kept w u i acked marks := by
    rcases sound.acked_kept w u i acked marks with carries | ⟨s, reached, fork⟩
    · exact Or.inl carries
    · exact Or.inr ⟨s, reached.trans ((stand_extends sound ahead).term_le w), fork⟩
  endorsed w other stands voted u i earlier acked marks := by
    by_cases same : other = c
    · subst same
      simp only [stand_term, Function.update_self] at voted earlier ⊢
      rcases stand_voted_cases voted with old | ⟨rfl, _, _⟩
      · exact absurd (sound.voted_reached w t other old) (by omega)
      · rcases sound.acked_kept w u i acked marks with carries | ⟨s, reached, fork⟩
        · exact Or.inl carries
        · exact Or.inr (Or.inl ⟨s, by omega, fork⟩)
    · simp only [stand_stands, stand_term, Function.update_of_ne same] at stands voted earlier ⊢
      rcases stand_voted_cases voted with old | ⟨_, _, rfl⟩
      · exact sound.endorsed w other stands old u i earlier acked marks
      · exact absurd rfl same
  elected := sound.elected

omit [Stamped E] in
theorem vote_voted_cases {w other : N} {u : ℕ} (voted : (h.vote v c).voted w u = some other) :
    h.voted w u = some other ∨ w = v ∧ u = h.term v ∧ other = c := by
  by_cases same : w = v
  · subst same
    by_cases now : u = h.term w
    · subst now
      simp only [vote_voted, Function.update_self, Option.some.injEq] at voted
      exact Or.inr ⟨rfl, rfl, voted.symm⟩
    · simp only [vote_voted, Function.update_self, Function.update_of_ne now] at voted
      exact Or.inl voted
  · simp only [vote_voted, Function.update_of_ne same] at voted
    exact Or.inl voted

theorem vote_extends (fresh : h.voted v (h.term v) = none) : h.Extends (h.vote v c) where
  term_le _ := le_rfl
  voted w u other voted := by
    by_cases same : w = v
    · subst same
      have unequal : u ≠ h.term w := by
        rintro rfl
        simp [fresh] at voted
      simpa [unequal] using voted
    · simpa [same] using voted
  leader _ _ leads := leads
  electors _ _ := rfl
  led_front _ := List.prefix_refl _
  led_added _ _ := ⟨[], by simp⟩
  acked _ _ _ acked := acked
  advertised _ _ _ advertised := advertised

/-- A voter that compares positions endorses everything it has stored so far. -/
theorem vote_sound {log : List E} (sound : h.Sound quorum)
    (fresh : h.voted v (h.term v) = none) (advertised : h.Advertised c (h.term v) log)
    (upToDate : position (h.log v) ≤ position log) : (h.vote v c).Sound quorum where
  log_bounded := sound.log_bounded
  led_bounded := sound.led_bounded
  log_rooted := sound.log_rooted
  led_rooted := sound.led_rooted
  led_empty := sound.led_empty
  stands_fresh := sound.stands_fresh
  voted_bounded w u other voted := by
    rcases vote_voted_cases voted with old | ⟨rfl, rfl, _⟩
    · exact sound.voted_bounded w u other old
    · exact le_rfl
  voted_reached w u other voted := by
    rcases vote_voted_cases voted with old | ⟨rfl, rfl, rfl⟩
    · exact sound.voted_reached w u other old
    · exact advertised.1
  leader_bounded := sound.leader_bounded
  leads_leader := sound.leads_leader
  leads_log := sound.leads_log
  electors_quorum := sound.electors_quorum
  electors_voted u other leads w elector :=
    (vote_extends fresh).voted w u other (sound.electors_voted u other leads w elector)
  acked_bounded := sound.acked_bounded
  acked_kept := sound.acked_kept
  endorsed w other stands voted t i earlier acked marks := by
    rcases vote_voted_cases voted with old | ⟨rfl, current, rfl⟩
    · exact sound.endorsed w other stands old t i earlier acked marks
    · obtain ⟨_, rooted, below, covered⟩ := advertised
      change h.term other = h.term w at current
      change t < h.term other at earlier
      rcases sound.acked_kept w t i acked marks with carries | ⟨s, reached, fork⟩
      · have far := (carries.position_le sound (sound.log_rooted w) marks).trans upToDate
        rcases rooted.carries_of_position sound below marks far with advertisedToo | ⟨s, before, fork⟩
        · rw [vote_term, current]
          exact covered stands current t i (current ▸ earlier) marks advertisedToo
        · exact Or.inr (Or.inl ⟨s, by simpa [current] using before, fork⟩)
      · rcases Nat.lt_or_eq_of_le reached with before | rfl
        · exact Or.inr (Or.inl ⟨s, by simpa [current] using before, fork⟩)
        · exact Or.inr (Or.inr (by simpa [current] using fork.2.1))
  elected := sound.elected

theorem elect_marks_iff (sound : h.Sound quorum) (stands : h.stands c) {votes : Set N}
    (vacant : h.leader (h.term c) = none) {i : ℕ} :
    (h.elect c votes).Marks t i ↔ h.Marks t i := by
  by_cases now : t = h.term c
  · subst now
    constructor
    · rintro ⟨front, last, inside, _, own⟩
      simp only [elect_led, Function.update_self] at inside
      have old := sound.stands_fresh c stands last (inside.subset (by simp))
      omega
    · intro marks
      have leads := marks.leader sound
      simp [vacant] at leads
  · simp only [Marks, elect_led, Function.update_of_ne now]

omit [Stamped E] in
theorem elect_carries_iff {votes : Set N} (other : t ≠ h.term c) {log : List E} {i : ℕ} :
    (h.elect c votes).Carries log t i ↔ h.Carries log t i := by
  simp only [Carries, elect_led, Function.update_of_ne other]

theorem elect_extends (sound : h.Sound quorum) (stands : h.stands c) {votes : Set N}
    (vacant : h.leader (h.term c) = none) : h.Extends (h.elect c votes) := by
  have unequal : ∀ t, (h.leader t).isSome → t ≠ h.term c := by
    rintro t leads rfl
    simp [vacant] at leads
  have led_front : ∀ t, h.led t <+: (h.elect c votes).led t := by
    intro t
    by_cases now : t = h.term c
    · simp [now, sound.led_empty _ vacant]
    · simp [now]
  have leader : ∀ t c', h.leader t = some c' → (h.elect c votes).leader t = some c' := by
    intro t other leads
    simpa [unequal t (by simp [leads])] using leads
  refine ⟨fun _ => le_rfl, fun _ _ _ voted => voted, leader, ?_, led_front, ?_,
    fun _ _ _ acked => acked, ?_⟩
  · intro t leads
    simp [unequal t leads]
  · intro t leads
    exact ⟨[], by simp [unequal t leads]⟩
  · rintro other u log ⟨reached, rooted, below, covered⟩
    refine ⟨reached, ?_, below, ?_⟩
    · intro front last inside
      obtain ⟨leads, under⟩ := rooted front last inside
      obtain ⟨ledBy, leads⟩ := Option.isSome_iff_exists.mp leads
      exact ⟨by simp only [leader _ _ leads, Option.isSome_some], under.trans (led_front _)⟩
    · intro stillStands current t i earlier marks carries
      rw [elect_marks_iff sound stands vacant] at marks
      have other_term := unequal t (marks.leader sound)
      rw [elect_carries_iff other_term] at carries ⊢
      by_cases same : other = c
      · simp [same] at stillStands
      · simp only [elect_stands, Function.update_of_ne same] at stillStands
        rcases covered stillStands current t i earlier marks carries with kept | ⟨s, before, fork⟩ | leads
        · exact Or.inl kept
        · refine Or.inr (Or.inl ⟨s, before, fork.1, ?_, ?_⟩)
          · obtain ⟨ledBy, leads⟩ := Option.isSome_iff_exists.mp fork.2.1
            simp only [leader _ _ leads, Option.isSome_some]
          · rw [elect_carries_iff other_term]
            simpa [unequal s fork.2.1] using fork.2.2
        · obtain ⟨ledBy, leads⟩ := Option.isSome_iff_exists.mp leads
          exact Or.inr (Or.inr (by simp only [leader _ _ leads, Option.isSome_some]))

theorem elect_sound (sound : h.Sound quorum) (stands : h.stands c) {votes : Set N}
    (vacant : h.leader (h.term c) = none) (enough : quorum votes)
    (votesFor : ∀ v ∈ votes, h.voted v (h.term c) = some c) : (h.elect c votes).Sound quorum := by
  have extends_ : h.Extends (h.elect c votes) := elect_extends sound stands vacant
  have marks_iff : ∀ t i, (h.elect c votes).Marks t i ↔ h.Marks t i :=
    fun t i => elect_marks_iff sound stands vacant
  exact {
    log_bounded := sound.log_bounded
    led_bounded := by
      intro t entry member
      by_cases now : t = h.term c
      · subst now
        simp only [elect_led, Function.update_self] at member
        exact sound.log_bounded c entry member
      · simp only [elect_led, Function.update_of_ne now] at member
        exact sound.led_bounded t entry member
    log_rooted := fun v => extends_.rooted (sound.log_rooted v)
    led_rooted := by
      intro t
      by_cases now : t = h.term c
      · subst now
        simpa using extends_.rooted (sound.log_rooted c)
      · simpa [now] using extends_.rooted (sound.led_rooted t)
    led_empty := by
      intro t noLeader
      by_cases now : t = h.term c
      · simp [now] at noLeader
      · simp only [elect_leader, elect_led, Function.update_of_ne now] at noLeader ⊢
        exact sound.led_empty t noLeader
    stands_fresh := by
      intro other stillStands
      by_cases same : other = c
      · simp [same] at stillStands
      · simp only [elect_stands, Function.update_of_ne same] at stillStands
        exact sound.stands_fresh other stillStands
    voted_bounded := sound.voted_bounded
    voted_reached := sound.voted_reached
    leader_bounded := by
      intro t other leads
      by_cases now : t = h.term c
      · subst now
        simp only [elect_leader, Function.update_self, Option.some.injEq] at leads
        subst leads
        exact le_rfl
      · simp only [elect_leader, Function.update_of_ne now] at leads
        exact sound.leader_bounded t other leads
    leads_leader := by
      intro w leads
      by_cases same : w = c
      · simp [same]
      · simp only [elect_leads, Function.update_of_ne same] at leads
        exact extends_.leader _ w (sound.leads_leader w leads)
    leads_log := by
      intro w leads
      by_cases same : w = c
      · simp [same]
      · simp only [elect_leads, Function.update_of_ne same] at leads
        have unequal : h.term w ≠ h.term c := by
          intro now
          have leader := sound.leads_leader w leads
          rw [now, vacant] at leader
          simp at leader
        simpa [unequal] using sound.leads_log w leads
    electors_quorum := by
      intro t leads
      by_cases now : t = h.term c
      · simpa [now] using enough
      · simp only [elect_leader, elect_electors, Function.update_of_ne now] at leads ⊢
        exact sound.electors_quorum t leads
    electors_voted := by
      intro t other leads w elector
      by_cases now : t = h.term c
      · subst now
        simp only [elect_leader, elect_electors, Function.update_self, Option.some.injEq] at leads elector
        subst leads
        exact votesFor w elector
      · simp only [elect_leader, elect_electors, Function.update_of_ne now] at leads elector
        exact sound.electors_voted t other leads w elector
    acked_bounded := by
      intro w t i acked
      obtain ⟨reached, short, leads⟩ := sound.acked_bounded w t i acked
      exact ⟨reached, short.trans (extends_.led_front t).length_le, extends_.leader_isSome leads⟩
    acked_kept := by
      intro w t i acked marks
      rw [marks_iff] at marks
      rcases sound.acked_kept w t i acked marks with carries | ⟨s, reached, fork⟩
      · exact Or.inl ((extends_.carries_iff marks).mpr carries)
      · exact Or.inr ⟨s, reached, extends_.fork marks fork⟩
    endorsed := by
      intro w other stillStands voted t i earlier acked marks
      rw [marks_iff] at marks
      by_cases same : other = c
      · simp [same] at stillStands
      · simp only [elect_stands, Function.update_of_ne same] at stillStands
        rcases sound.endorsed w other stillStands voted t i earlier acked marks with
          carries | ⟨s, before, fork⟩ | leads
        · exact Or.inl ((extends_.carries_iff marks).mpr carries)
        · exact Or.inr (Or.inl ⟨s, before, extends_.fork marks fork⟩)
        · exact Or.inr (Or.inr (extends_.leader_isSome leads))
    elected := by
      intro u leads w elector t i earlier acked marks
      rw [marks_iff] at marks
      by_cases now : u = h.term c
      · subst now
        simp only [elect_electors, elect_led, Function.update_self] at elector ⊢
        rcases sound.endorsed w c stands (votesFor w elector) t i earlier acked marks with
          carries | ⟨s, before, fork⟩ | leadsAlready
        · exact Or.inl ((extends_.carries_iff marks).mpr carries)
        · exact Or.inr ⟨s, before, extends_.fork marks fork⟩
        · simp [vacant] at leadsAlready
      · simp only [elect_leader, elect_electors, elect_led, Function.update_of_ne now] at leads elector ⊢
        rcases sound.elected u leads w elector t i earlier acked marks with carries | ⟨s, before, fork⟩
        · exact Or.inl ((extends_.carries_iff marks).mpr carries)
        · exact Or.inr ⟨s, before, extends_.fork marks fork⟩ }

end Ledger

end Raftiq.Consensus
