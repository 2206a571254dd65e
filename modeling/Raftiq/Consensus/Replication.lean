import Raftiq.Consensus.Election

namespace Raftiq.Consensus

open Stamped

variable {N E : Type*}

namespace Ledger

@[simps] def propose [DecidableEq N] (h : Ledger N E) (c : N) (entry : E) : Ledger N E :=
  { h with
    log := Function.update h.log c (h.log c ++ [entry])
    stands := Function.update h.stands c False
    led := Function.update h.led (h.term c) (h.log c ++ [entry])
    acked := fun v t i => h.acked v t i ∨ v = c ∧ t = h.term c ∧ i ≤ (h.log c).length + 1 }

open Classical in
/-- A log that already contains the incoming entries is kept, longer or not; any
other log is replaced by them. -/
noncomputable def merge (log incoming : List E) : List E :=
  if incoming <+: log then log else incoming

theorem merge_of_front {log incoming : List E} (inside : incoming <+: log) :
    merge log incoming = log := if_pos inside

theorem merge_of_not_front {log incoming : List E} (outside : ¬ incoming <+: log) :
    merge log incoming = incoming := if_neg outside

theorem merge_of_length_le {log incoming : List E} (short : log.length ≤ incoming.length) :
    merge log incoming = incoming := by
  unfold merge
  split
  · rename_i inside
    exact (inside.eq_of_length_le short).symm
  · rfl

theorem prefix_merge (log incoming : List E) : incoming <+: merge log incoming := by
  unfold merge
  split
  · assumption
  · exact List.prefix_refl _

theorem merge_cases (log incoming : List E) :
    merge log incoming = log ∨ merge log incoming = incoming := by
  unfold merge
  split
  · exact Or.inl rfl
  · exact Or.inr rfl

/-- What the log has and the incoming entries do not contradict survives the merge. -/
theorem prefix_merge_of_comparable {kept log incoming : List E} (inside : kept <+: log)
    (comparable : kept <+: incoming ∨ incoming <+: kept) : kept <+: merge log incoming := by
  rcases comparable with below | above
  · exact below.trans (prefix_merge log incoming)
  · rw [merge_of_front (above.trans inside)]
    exact inside

/-- A node stores the first `m` entries of the leader of term `t`. -/
@[simps] noncomputable def accept [DecidableEq N] (h : Ledger N E) (v : N) (t m : ℕ) : Ledger N E :=
  { h with
    term := Function.update h.term v t
    log := Function.update h.log v (merge (h.log v) ((h.led t).take m))
    stands := Function.update h.stands v False
    leads := Function.update h.leads v False
    acked := fun w u i => h.acked w u i ∨ w = v ∧ u = t ∧ i ≤ m }

/-- A node receives a committed prefix outside of replication, in whatever term it is. -/
@[simps] noncomputable def install [DecidableEq N] (h : Ledger N E) (v : N) (t k : ℕ) : Ledger N E :=
  { h with log := Function.update h.log v (merge (h.log v) ((h.led t).take k)) }

/-- A node comes back from a crash as a follower, with at least the log it had. -/
@[simps] def resume [DecidableEq N] (h : Ledger N E) (v : N) (log : List E) : Ledger N E :=
  { h with
    log := Function.update h.log v log
    stands := Function.update h.stands v False
    leads := Function.update h.leads v False }

/-- Prefixes of two leaders' logs are comparable as soon as one lies in the other's log. -/
theorem Carries.comparable {h : Ledger N E} {t m u i : ℕ} (carries : h.Carries (h.led t) u i) :
    (h.led u).take i <+: (h.led t).take m ∨ (h.led t).take m <+: (h.led u).take i :=
  List.prefix_or_prefix_of_prefix carries (List.take_prefix _ _)

/-- Copying from a leader loses an entry only if that leader does not have it. -/
theorem Carries.merge {h : Ledger N E} {log : List E} {t m u i : ℕ}
    (leads : (h.leader t).isSome)
    (earlier : u < t ∨ h.Carries (h.led t) u i) (carries : h.Carries log u i) :
    h.Carries (merge log ((h.led t).take m)) u i ∨ h.Fork u i t := by
  by_cases held : h.Carries (h.led t) u i
  · exact Or.inl (prefix_merge_of_comparable carries held.comparable)
  · rcases earlier with before | held'
    · exact Or.inr ⟨before, leads, held⟩
    · exact absurd held' held

variable [Stamped E] [DecidableEq N]
variable {h : Ledger N E} {quorum : Set N → Prop} {v c : N} {entry : E} {t m k : ℕ}

theorem propose_led_eq (leads : h.leads c) (sound : h.Sound quorum) (u : ℕ) :
    (h.propose c entry).led u = h.led u ++ if u = h.term c then [entry] else [] := by
  by_cases now : u = h.term c
  · subst now
    simp [sound.leads_log c leads]
  · simp [now]

theorem propose_marks_cases (sound : h.Sound quorum) (leads : h.leads c) {i : ℕ}
    (marks : (h.propose c entry).Marks t i) :
    h.Marks t i ∨ t = h.term c ∧ i = (h.led t).length + 1 := by
  obtain ⟨front, last, inside, length, own⟩ := marks
  rw [propose_led_eq leads sound] at inside
  by_cases now : t = h.term c
  · rw [if_pos now] at inside
    rcases Nat.lt_or_ge (h.led t).length i with long | short
    · have bound := inside.length_le
      simp only [List.length_append, List.length_singleton] at bound
      exact Or.inr ⟨now, by omega⟩
    · refine Or.inl ⟨front, last, ?_, length, own⟩
      exact List.prefix_of_prefix_length_le inside (List.prefix_append _ _) (by simpa [length] using short)
  · rw [if_neg now, List.append_nil] at inside
    exact Or.inl ⟨front, last, inside, length, own⟩

/-- Nobody but the proposer can have stored the entry, so every older acknowledgement
is about entries that were there before. -/
theorem propose_marks_of_acked (sound : h.Sound quorum) (leads : h.leads c)
    {w : N} {i : ℕ} (acked : h.acked w t i) (marks : (h.propose c entry).Marks t i) : h.Marks t i := by
  rcases propose_marks_cases sound leads marks with old | ⟨_, long⟩
  · exact old
  · have short := (sound.acked_bounded w t i acked).2.1
    omega

theorem propose_extends (sound : h.Sound quorum) (leads : h.leads c)
    (own : stamp entry = h.term c) : h.Extends (h.propose c entry) := by
  have led_front : ∀ u, h.led u <+: (h.propose c entry).led u := by
    intro u
    rw [propose_led_eq leads sound]
    exact List.prefix_append _ _
  refine ⟨fun _ => le_rfl, fun _ _ _ voted => voted, fun _ _ leads => leads, fun _ _ => rfl,
    led_front, ?_, fun _ _ _ acked => Or.inl acked, ?_⟩
  · intro u _
    refine ⟨_, propose_led_eq leads sound u, ?_⟩
    intro added member
    split at member
    · rename_i now
      rw [List.mem_singleton.mp member, own, now]
    · simp at member
  · rintro other u log ⟨reached, rooted, below, covered⟩
    refine ⟨reached, fun front last inside => ?_, below, ?_⟩
    · obtain ⟨ledBy, under⟩ := rooted front last inside
      exact ⟨ledBy, under.trans (led_front _)⟩
    · intro stillStands current s i earlier marks carries
      by_cases same : other = c
      · simp [same] at stillStands
      · simp only [propose_stands, propose_log, Function.update_of_ne same] at stillStands ⊢
        have marksOld : h.Marks s i := by
          rcases propose_marks_cases sound leads marks with old | ⟨now, long⟩
          · exact old
          · -- the log was rooted before, so it cannot hold the new entry
            obtain ⟨front, last, taken, length, lastOwn⟩ := marks.take_eq
            unfold Carries at carries
            rw [taken] at carries
            have under := (rooted front last carries).2.length_le
            rw [lastOwn, List.length_append, List.length_singleton] at under
            omega
        have takes : ((h.propose c entry).led s).take i = (h.led s).take i := by
          obtain ⟨added, grown⟩ := led_front s
          rw [← grown, List.take_append_of_le_length marksOld.length_le]
        unfold Carries at carries ⊢
        rw [takes] at carries ⊢
        rcases covered stillStands current s i earlier marksOld carries with kept | ⟨r, before, fork⟩ | led
        · exact Or.inl kept
        · refine Or.inr (Or.inl ⟨r, before, fork.1, fork.2.1, fun healed => fork.2.2 ?_⟩)
          obtain ⟨front, last, taken, length, lastOwn⟩ := marksOld.take_eq
          unfold Carries at healed ⊢
          rw [takes, taken, propose_led_eq leads sound] at healed
          rw [taken]
          rcases prefix_append_cases healed with inside | member
          · exact inside
          · split at member
            · rename_i now
              have stamped := List.mem_singleton.mp member
              rw [stamped, own] at lastOwn
              have := fork.1
              omega
            · simp at member
        · exact Or.inr (Or.inr led)

theorem propose_sound (sound : h.Sound quorum) (leads : h.leads c)
    (own : stamp entry = h.term c) : (h.propose c entry).Sound quorum := by
  have extends_ : h.Extends (h.propose c entry) := propose_extends sound leads own
  have log_led : h.log c = h.led (h.term c) := sound.leads_log c leads
  have grown_rooted : (h.propose c entry).Rooted (h.log c ++ [entry]) := by
    intro front last inside
    rcases prefix_append_cases inside with old | new
    · exact extends_.rooted (sound.log_rooted c) front last old
    · rw [List.mem_singleton.mp new, own]
      rw [List.mem_singleton.mp new] at inside
      exact ⟨by simp [sound.leads_leader c leads], by simpa using inside⟩
  exact {
    log_bounded := by
      intro w added member
      by_cases same : w = c
      · subst same
        simp only [propose_log, Function.update_self, List.mem_append, List.mem_singleton] at member
        rcases member with old | rfl
        · exact sound.log_bounded w added old
        · exact own.le
      · simp only [propose_log, Function.update_of_ne same] at member
        exact sound.log_bounded w added member
    led_bounded := by
      intro u added member
      rw [propose_led_eq leads sound, List.mem_append] at member
      rcases member with old | new
      · exact sound.led_bounded u added old
      · split at new
        · rename_i now
          rw [List.mem_singleton.mp new, own, now]
        · simp at new
    log_rooted := by
      intro w
      by_cases same : w = c
      · subst same
        simpa using grown_rooted
      · simpa [same] using extends_.rooted (sound.log_rooted w)
    led_rooted := by
      intro u
      by_cases now : u = h.term c
      · subst now
        simpa using grown_rooted
      · simpa [now] using extends_.rooted (sound.led_rooted u)
    led_empty := by
      intro u vacant
      have unequal : u ≠ h.term c := by
        rintro rfl
        simp [sound.leads_leader c leads] at vacant
      simpa [unequal] using sound.led_empty u vacant
    stands_fresh := by
      intro other stillStands
      by_cases same : other = c
      · simp [same] at stillStands
      · simp only [propose_stands, propose_log, Function.update_of_ne same] at stillStands ⊢
        exact sound.stands_fresh other stillStands
    voted_bounded := sound.voted_bounded
    voted_reached := sound.voted_reached
    leader_bounded := sound.leader_bounded
    leads_leader := sound.leads_leader
    leads_log := by
      intro w leadsToo
      by_cases same : w = c
      · simp [same]
      · have unequal : h.term w ≠ h.term c := by
          intro now
          have leader := sound.leads_leader w leadsToo
          rw [now, sound.leads_leader c leads] at leader
          exact same (Option.some.inj leader).symm
        simpa [unequal, same] using sound.leads_log w leadsToo
    electors_quorum := sound.electors_quorum
    electors_voted := sound.electors_voted
    acked_bounded := by
      rintro w u i (old | ⟨rfl, rfl, short⟩)
      · obtain ⟨reached, length, ledBy⟩ := sound.acked_bounded w u i old
        exact ⟨reached, length.trans (extends_.led_front u).length_le, ledBy⟩
      · exact ⟨le_rfl, by simpa using short, by simp [sound.leads_leader w leads]⟩
    acked_kept := by
      rintro w u i (old | ⟨rfl, rfl, _⟩) marks
      · have marksOld := propose_marks_of_acked sound leads old marks
        rcases sound.acked_kept w u i old marksOld with carries | ⟨s, reached, fork⟩
        · refine Or.inl ((extends_.carries_iff marksOld).mpr (carries.mono ?_))
          by_cases same : w = c
          · simp [same]
          · simp [same]
        · exact Or.inr ⟨s, reached, extends_.fork marksOld fork⟩
      · refine Or.inl ?_
        simp only [Carries, propose_led, propose_log, Function.update_self]
        exact List.take_prefix _ _
    endorsed := by
      intro w other stillStands voted u i earlier acked marks
      by_cases same : other = c
      · simp [same] at stillStands
      · simp only [propose_stands, propose_log, Function.update_of_ne same] at stillStands ⊢
        rcases acked with old | ⟨rfl, rfl, _⟩
        · have marksOld := propose_marks_of_acked sound leads old marks
          rcases sound.endorsed w other stillStands voted u i earlier old marksOld with
            carries | ⟨s, before, fork⟩ | ledBy
          · exact Or.inl ((extends_.carries_iff marksOld).mpr carries)
          · exact Or.inr (Or.inl ⟨s, before, extends_.fork marksOld fork⟩)
          · exact Or.inr (Or.inr ledBy)
        · have bound := sound.voted_bounded w _ other voted
          simp only [propose_term] at earlier bound
          omega
    elected := by
      intro u ledBy w elector s i earlier acked marks
      rcases acked with old | ⟨rfl, rfl, _⟩
      · have marksOld := propose_marks_of_acked sound leads old marks
        rcases sound.elected u ledBy w elector s i earlier old marksOld with carries | ⟨r, before, fork⟩
        · exact Or.inl ((extends_.carries_iff marksOld).mpr (carries.mono (extends_.led_front u)))
        · exact Or.inr ⟨r, before, extends_.fork marksOld fork⟩
      · obtain ⟨winner, ledBy⟩ := Option.isSome_iff_exists.mp ledBy
        have bound := sound.voted_bounded w u winner (sound.electors_voted u winner ledBy w elector)
        omega }

theorem accept_extends (reached : h.term v ≤ t) : h.Extends (h.accept v t m) where
  term_le w := by
    by_cases same : w = v
    · subst same
      simpa using reached
    · simp [same]
  voted _ _ _ voted := voted
  leader _ _ leads := leads
  electors _ _ := rfl
  led_front _ := List.prefix_refl _
  led_added _ _ := ⟨[], by simp⟩
  acked _ _ _ acked := Or.inl acked
  advertised other u log := by
    rintro ⟨past, rooted, below, covered⟩
    by_cases same : other = v
    · subst same
      exact ⟨by simpa using past.trans reached, rooted, below, fun stands => by simp at stands⟩
    · refine ⟨by simpa [same] using past, rooted, below, fun stands current => ?_⟩
      simp only [accept_stands, accept_term, accept_log, Function.update_of_ne same] at stands current ⊢
      exact covered stands current

theorem accept_sound (sound : h.Sound quorum) (leads : (h.leader t).isSome)
    (reached : h.term v ≤ t) (short : m ≤ (h.led t).length) : (h.accept v t m).Sound quorum := by
  have extends_ : h.Extends (h.accept v t m) := accept_extends reached
  exact {
    log_bounded := by
      intro w entry member
      by_cases same : w = v
      · subst same
        simp only [accept_log, accept_term, Function.update_self] at member ⊢
        rcases merge_cases (h.log w) ((h.led t).take m) with kept | replaced
        · rw [kept] at member
          exact (sound.log_bounded w entry member).trans reached
        · rw [replaced] at member
          exact sound.led_bounded t entry (List.take_subset _ _ member)
      · simp only [accept_log, accept_term, Function.update_of_ne same] at member ⊢
        exact sound.log_bounded w entry member
    led_bounded := sound.led_bounded
    log_rooted := by
      intro w
      by_cases same : w = v
      · subst same
        simp only [accept_log, Function.update_self]
        rcases merge_cases (h.log w) ((h.led t).take m) with kept | replaced
        · rw [kept]
          exact sound.log_rooted w
        · rw [replaced]
          exact (sound.led_rooted t).of_front (List.take_prefix _ _)
      · simp only [accept_log, Function.update_of_ne same]
        exact sound.log_rooted w
    led_rooted := sound.led_rooted
    led_empty := sound.led_empty
    stands_fresh := by
      intro other stillStands
      by_cases same : other = v
      · simp [same] at stillStands
      · simp only [accept_stands, accept_term, accept_log, Function.update_of_ne same] at stillStands ⊢
        exact sound.stands_fresh other stillStands
    voted_bounded := fun w u other voted =>
      (sound.voted_bounded w u other voted).trans (extends_.term_le w)
    voted_reached := fun w u other voted =>
      (sound.voted_reached w u other voted).trans (extends_.term_le other)
    leader_bounded := fun u other ledBy =>
      (sound.leader_bounded u other ledBy).trans (extends_.term_le other)
    leads_leader := by
      intro w leadsToo
      by_cases same : w = v
      · simp [same] at leadsToo
      · simp only [accept_leads, accept_term, accept_leader, Function.update_of_ne same] at leadsToo ⊢
        exact sound.leads_leader w leadsToo
    leads_log := by
      intro w leadsToo
      by_cases same : w = v
      · simp [same] at leadsToo
      · simp only [accept_leads, accept_term, accept_log, accept_led,
          Function.update_of_ne same] at leadsToo ⊢
        exact sound.leads_log w leadsToo
    electors_quorum := sound.electors_quorum
    electors_voted := sound.electors_voted
    acked_bounded := by
      rintro w u i (old | ⟨rfl, rfl, bound⟩)
      · obtain ⟨past, rest⟩ := sound.acked_bounded w u i old
        exact ⟨past.trans (extends_.term_le w), rest⟩
      · exact ⟨by simp, bound.trans short, leads⟩
    acked_kept := by
      rintro w u i acked marks
      by_cases same : w = v
      · subst same
        simp only [accept_log, accept_term, Function.update_self]
        rcases acked with old | ⟨_, rfl, bound⟩
        · rcases sound.acked_kept w u i old marks with carries | ⟨s, past, fork⟩
          · have past := (sound.acked_bounded w u i old).1.trans reached
            have earlier : u < t ∨ h.Carries (h.led t) u i := by
              rcases Nat.lt_or_eq_of_le past with before | rfl
              · exact Or.inl before
              · exact Or.inr (List.take_prefix _ _)
            rcases carries.merge (m := m) leads earlier with kept | fork
            · exact Or.inl kept
            · exact Or.inr ⟨t, le_rfl, fork⟩
          · exact Or.inr ⟨s, past.trans reached, fork⟩
        · exact Or.inl ((List.take_prefix_take_left bound).trans (prefix_merge _ _))
      · rcases acked with old | ⟨rfl, _, _⟩
        · simp only [accept_log, accept_term, Function.update_of_ne same]
          exact sound.acked_kept w u i old marks
        · exact absurd rfl same
    endorsed := by
      intro w other stillStands voted u i earlier acked marks
      by_cases same : other = v
      · simp [same] at stillStands
      · simp only [accept_stands, accept_term, accept_log, accept_voted,
          Function.update_of_ne same] at stillStands voted earlier ⊢
        rcases acked with old | ⟨rfl, rfl, _⟩
        · exact sound.endorsed w other stillStands voted u i earlier old marks
        · have bound := sound.voted_bounded w _ other voted
          omega
    elected := by
      intro u ledBy w elector s i earlier acked marks
      rcases acked with old | ⟨rfl, rfl, _⟩
      · exact sound.elected u ledBy w elector s i earlier old marks
      · obtain ⟨winner, ledBy⟩ := Option.isSome_iff_exists.mp ledBy
        have bound := sound.voted_bounded w u winner (sound.electors_voted u winner ledBy w elector)
        omega }

theorem resume_extends {log : List E} : h.Extends (h.resume v log) where
  term_le _ := le_rfl
  voted _ _ _ voted := voted
  leader _ _ leads := leads
  electors _ _ := rfl
  led_front _ := List.prefix_refl _
  led_added _ _ := ⟨[], by simp⟩
  acked _ _ _ acked := acked
  advertised other u log := by
    rintro ⟨past, rooted, below, covered⟩
    by_cases same : other = v
    · exact ⟨past, rooted, below, fun stands => by simp [same] at stands⟩
    · refine ⟨past, rooted, below, fun stands current => ?_⟩
      simp only [resume_stands, resume_log, Function.update_of_ne same] at stands ⊢
      exact covered stands current

theorem resume_sound {log : List E} (sound : h.Sound quorum) (kept : h.log v <+: log)
    (rooted : h.Rooted log) (bounded : ∀ entry ∈ log, stamp entry ≤ h.term v) :
    (h.resume v log).Sound quorum where
  log_bounded w entry member := by
    by_cases same : w = v
    · subst same
      simp only [resume_log, Function.update_self] at member
      exact bounded entry member
    · simp only [resume_log, Function.update_of_ne same] at member
      exact sound.log_bounded w entry member
  led_bounded := sound.led_bounded
  log_rooted w := by
    by_cases same : w = v
    · subst same
      simp only [resume_log, Function.update_self]
      exact rooted
    · simp only [resume_log, Function.update_of_ne same]
      exact sound.log_rooted w
  led_rooted := sound.led_rooted
  led_empty := sound.led_empty
  stands_fresh other stands := by
    by_cases same : other = v
    · simp [same] at stands
    · simp only [resume_stands, resume_log, Function.update_of_ne same] at stands ⊢
      exact sound.stands_fresh other stands
  voted_bounded := sound.voted_bounded
  voted_reached := sound.voted_reached
  leader_bounded := sound.leader_bounded
  leads_leader w leads := by
    by_cases same : w = v
    · simp [same] at leads
    · simp only [resume_leads, Function.update_of_ne same] at leads
      exact sound.leads_leader w leads
  leads_log w leads := by
    by_cases same : w = v
    · simp [same] at leads
    · simp only [resume_leads, resume_log, Function.update_of_ne same] at leads ⊢
      exact sound.leads_log w leads
  electors_quorum := sound.electors_quorum
  electors_voted := sound.electors_voted
  acked_bounded := sound.acked_bounded
  acked_kept w t i acked marks := by
    rcases sound.acked_kept w t i acked marks with carries | lost
    · refine Or.inl (carries.mono ?_)
      by_cases same : w = v
      · subst same
        simpa using kept
      · simp [same]
    · exact Or.inr lost
  endorsed w other stands := by
    by_cases same : other = v
    · simp [same] at stands
    · simp only [resume_stands, resume_log, Function.update_of_ne same] at stands ⊢
      exact sound.endorsed w other stands
  elected := sound.elected

section Install

variable {i : ℕ}
  (intersects : ∀ left right, quorum left → quorum right → ∃ v, v ∈ left ∧ v ∈ right)
include intersects

omit [DecidableEq N] in
/-- A committed prefix never takes away an entry whose leader is older or newer. -/
theorem Committed.carries_merge (sound : h.Sound quorum) (committed : h.Committed quorum t i)
    (short : k ≤ i) {log : List E} {u j : ℕ} (marks : h.Marks u j) (carries : h.Carries log u j) :
    h.Carries (merge log ((h.led t).take k)) u j ∨ h.Fork u j t := by
  rcases Nat.lt_or_ge t u with later | earlier
  · have inside := sound.committed_carries intersects committed later.le (marks.leader sound)
    have below : (h.led t).take k <+: h.led u := (List.take_prefix_take_left short).trans inside
    exact Or.inl (prefix_merge_of_comparable carries
      (List.prefix_or_prefix_of_prefix (List.take_prefix _ _) below))
  · refine carries.merge (committed.1.leader sound) ?_
    rcases Nat.lt_or_eq_of_le earlier with before | rfl
    · exact Or.inl before
    · exact Or.inr (List.take_prefix _ _)

theorem install_extends (sound : h.Sound quorum) (committed : h.Committed quorum t i) (short : k ≤ i)
    (behind : h.stands v → t < h.term v) : h.Extends (h.install v t k) where
  term_le _ := le_rfl
  voted _ _ _ voted := voted
  leader _ _ leads := leads
  electors _ _ := rfl
  led_front _ := List.prefix_refl _
  led_added _ _ := ⟨[], by simp⟩
  acked _ _ _ acked := acked
  advertised other u log := by
    rintro ⟨past, rooted, below, covered⟩
    refine ⟨past, rooted, below, fun stands current s j earlier marks carries => ?_⟩
    by_cases same : other = v
    · subst same
      simp only [install_log, Function.update_self]
      rcases covered stands current s j earlier marks carries with kept | rest
      · rcases committed.carries_merge intersects sound short marks kept with still | fork
        · exact Or.inl still
        · exact Or.inr (Or.inl ⟨t, (behind stands).trans_eq current, fork⟩)
      · exact Or.inr rest
    · simp only [install_log, Function.update_of_ne same]
      exact covered stands current s j earlier marks carries

theorem install_sound (sound : h.Sound quorum) (committed : h.Committed quorum t i) (short : k ≤ i)
    (reached : t ≤ h.term v) (behind : h.stands v → t < h.term v) :
    (h.install v t k).Sound quorum where
  log_bounded w entry member := by
    by_cases same : w = v
    · subst same
      simp only [install_log, Function.update_self] at member
      rcases merge_cases (h.log w) ((h.led t).take k) with kept | replaced
      · rw [kept] at member
        exact sound.log_bounded w entry member
      · rw [replaced] at member
        exact (sound.led_bounded t entry (List.take_subset _ _ member)).trans reached
    · simp only [install_log, Function.update_of_ne same] at member
      exact sound.log_bounded w entry member
  led_bounded := sound.led_bounded
  log_rooted w := by
    by_cases same : w = v
    · subst same
      simp only [install_log, Function.update_self]
      rcases merge_cases (h.log w) ((h.led t).take k) with kept | replaced
      · rw [kept]
        exact sound.log_rooted w
      · rw [replaced]
        exact (sound.led_rooted t).of_front (List.take_prefix _ _)
    · simp only [install_log, Function.update_of_ne same]
      exact sound.log_rooted w
  led_rooted := sound.led_rooted
  led_empty := sound.led_empty
  stands_fresh other stands entry member := by
    by_cases same : other = v
    · subst same
      simp only [install_log, Function.update_self] at member
      rcases merge_cases (h.log other) ((h.led t).take k) with kept | replaced
      · rw [kept] at member
        exact sound.stands_fresh other stands entry member
      · rw [replaced] at member
        exact (sound.led_bounded t entry (List.take_subset _ _ member)).trans_lt (behind stands)
    · simp only [install_log, Function.update_of_ne same] at member
      exact sound.stands_fresh other stands entry member
  voted_bounded := sound.voted_bounded
  voted_reached := sound.voted_reached
  leader_bounded := sound.leader_bounded
  leads_leader := sound.leads_leader
  leads_log w leads := by
    by_cases same : w = v
    · subst same
      have log_led := sound.leads_log w leads
      have inside := sound.committed_carries intersects committed reached
        (Option.isSome_iff_exists.mpr ⟨w, sound.leads_leader w leads⟩)
      have below : (h.led t).take k <+: h.log w := by
        rw [log_led]
        exact (List.take_prefix_take_left short).trans inside
      simp only [install_log, Function.update_self, merge_of_front below]
      exact log_led
    · simp only [install_log, Function.update_of_ne same]
      exact sound.leads_log w leads
  electors_quorum := sound.electors_quorum
  electors_voted := sound.electors_voted
  acked_bounded := sound.acked_bounded
  acked_kept w u j acked marks := by
    by_cases same : w = v
    · subst same
      simp only [install_log, Function.update_self]
      rcases sound.acked_kept w u j acked marks with carries | lost
      · rcases committed.carries_merge intersects sound short marks carries with kept | fork
        · exact Or.inl kept
        · exact Or.inr ⟨t, reached, fork⟩
      · exact Or.inr lost
    · simp only [install_log, Function.update_of_ne same]
      exact sound.acked_kept w u j acked marks
  endorsed w other stands voted u j earlier acked marks := by
    by_cases same : other = v
    · subst same
      simp only [install_log, Function.update_self]
      rcases sound.endorsed w other stands voted u j earlier acked marks with carries | rest
      · rcases committed.carries_merge intersects sound short marks carries with kept | fork
        · exact Or.inl kept
        · exact Or.inr (Or.inl ⟨t, behind stands, fork⟩)
      · exact Or.inr rest
    · simp only [install_log, Function.update_of_ne same]
      exact sound.endorsed w other stands voted u j earlier acked marks
  elected := sound.elected

end Install

end Ledger

end Raftiq.Consensus
