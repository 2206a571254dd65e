import Raftiq.Consensus.Replication

namespace Raftiq.Consensus

open Stamped

variable {N E : Type*} [Stamped E]

namespace Ledger

/-- A node carries what it has stored from the leader of its term, for as long as the term lasts. -/
def Abides (h : Ledger N E) : Prop :=
  ∀ v t i, h.acked v t i → t ≤ h.term v ∧ i ≤ (h.led t).length ∧ (t = h.term v → h.Carries (h.log v) t i)

omit [Stamped E] in
theorem empty_abides : (empty : Ledger N E).Abides :=
  fun _ _ _ acked => acked.elim

/-- What a step of node `v` leaves alone. -/
structure Moves (h : Ledger N E) (v : N) (later : Ledger N E) : Prop where
  keeps : h.Extends later
  term : ∀ w, w ≠ v → later.term w = h.term w
  log : ∀ w, w ≠ v → later.log w = h.log w
  voted : ∀ w, w ≠ v → later.voted w = h.voted w
  stands : ∀ w, w ≠ v → later.stands w = h.stands w
  leads : ∀ w, w ≠ v → later.leads w = h.leads w
  leader : ∀ t c, later.leader t = some c → h.leader t = some c ∨ c = v
  /-- A node only begins to stand in a new term. -/
  fresh : later.stands v → h.stands v ∨ h.term v < later.term v
  abides : h.Abides → later.Abides

variable {h middle later : Ledger N E} {quorum : Set N → Prop} {v c : N} {entry : E} {t m k : ℕ}

theorem Moves.refl (h : Ledger N E) (v : N) : h.Moves v h where
  keeps := .refl h
  term _ _ := rfl
  log _ _ := rfl
  voted _ _ := rfl
  stands _ _ := rfl
  leads _ _ := rfl
  leader _ _ leads := Or.inl leads
  fresh stands := Or.inl stands
  abides kept := kept

theorem Moves.trans (first : h.Moves v middle) (second : middle.Moves v later) : h.Moves v later where
  keeps := first.keeps.trans second.keeps
  term w other := (second.term w other).trans (first.term w other)
  log w other := (second.log w other).trans (first.log w other)
  voted w other := (second.voted w other).trans (first.voted w other)
  stands w other := (second.stands w other).trans (first.stands w other)
  leads w other := (second.leads w other).trans (first.leads w other)
  leader t c leads := by
    cases second.leader t c leads with
    | inl earlier => exact first.leader t c earlier
    | inr own => exact Or.inr own
  fresh stands := by
    cases second.fresh stands with
    | inl earlier => exact (first.fresh earlier).imp_right fun ahead => ahead.trans_le (second.keeps.term_le v)
    | inr ahead => exact Or.inr ((first.keeps.term_le v).trans_lt ahead)
  abides kept := second.abides (first.abides kept)

variable [DecidableEq N]

omit [Stamped E] in
/-- A node that only changes its term leaves behind what it has stored in the old one. -/
theorem Abides.reach (abides : h.Abides) (ahead : h.term v ≤ t)
    (same : ∀ w u i, later.acked w u i → h.acked w u i) (led : later.led = h.led) (log : later.log = h.log)
    (term : later.term = Function.update h.term v t) : later.Abides := by
  intro w u i acked
  obtain ⟨reached, short, carries⟩ := abides w u i (same w u i acked)
  unfold Carries at carries ⊢
  rw [led, log, term]
  by_cases own : w = v
  · subst own
    rw [Function.update_self]
    refine ⟨reached.trans ahead, short, fun current => carries (by omega)⟩
  · rw [Function.update_of_ne own]
    exact ⟨reached, short, carries⟩

omit [Stamped E] [DecidableEq N] in
/-- A node whose log takes in entries of its leader loses nothing of it. -/
theorem Abides.merge (abides : h.Abides) {u i : ℕ} (acked : h.acked v u i) (current : u = h.term v)
    {incoming : List E} (inside : incoming <+: h.led u) : h.Carries (merge (h.log v) incoming) u i :=
  prefix_merge_of_comparable ((abides v u i acked).2.2 current)
    (List.prefix_or_prefix_of_prefix (List.take_prefix _ _) inside)

theorem advance_moves (ahead : h.term v ≤ t) : h.Moves v (h.advance v t) where
  keeps := advance_extends ahead
  term w other := by simp [other]
  log _ _ := rfl
  voted _ _ := rfl
  stands w other := by simp [other]
  leads w other := by simp [other]
  leader _ _ leads := Or.inl leads
  fresh stands := by simp at stands
  abides kept := kept.reach ahead (fun _ _ _ acked => acked) rfl rfl rfl

theorem stand_moves (sound : h.Sound quorum) (ahead : h.term v < t) : h.Moves v (h.stand v t) where
  keeps := stand_extends sound ahead
  term w other := by simp [other]
  log _ _ := rfl
  voted _ other := Function.update_of_ne other _ _
  stands w other := by simp [other]
  leads w other := by simp [other]
  leader _ _ leads := Or.inl leads
  fresh _ := Or.inr (by simpa using ahead)
  abides kept := kept.reach ahead.le (fun _ _ _ acked => acked) rfl rfl rfl

theorem vote_moves (fresh : h.voted v (h.term v) = none) : h.Moves v (h.vote v c) where
  keeps := vote_extends fresh
  term _ _ := rfl
  log _ _ := rfl
  voted _ other := Function.update_of_ne other _ _
  stands _ _ := rfl
  leads _ _ := rfl
  leader _ _ leads := Or.inl leads
  fresh stands := Or.inl stands
  abides kept := kept

theorem elect_moves (sound : h.Sound quorum) (stands : h.stands v) {votes : Set N}
    (vacant : h.leader (h.term v) = none) : h.Moves v (h.elect v votes) where
  keeps := elect_extends sound stands vacant
  term _ _ := rfl
  log _ _ := rfl
  voted _ _ := rfl
  stands w other := by simp [other]
  leads w other := by simp [other]
  leader u c leads := by
    by_cases now : u = h.term v
    · subst now
      simp only [elect_leader, Function.update_self, Option.some.injEq] at leads
      exact Or.inr leads.symm
    · simp only [elect_leader, Function.update_of_ne now] at leads
      exact Or.inl leads
  fresh stands := by simp at stands
  abides kept w u i acked := by
    -- nobody has stored anything from a leader that did not exist
    have other : u ≠ h.term v := by
      rintro rfl
      simpa [vacant] using (sound.acked_bounded w _ i acked).2.2
    have led : (h.elect v votes).led u = h.led u := by simp [other]
    unfold Carries
    rw [led]
    exact kept w u i acked

theorem propose_moves (sound : h.Sound quorum) (leads : h.leads v) (own : stamp entry = h.term v) :
    h.Moves v (h.propose v entry) where
  keeps := propose_extends sound leads own
  term _ _ := rfl
  log w other := by simp [other]
  voted _ _ := rfl
  stands w other := by simp [other]
  leads _ _ := rfl
  leader _ _ leads := Or.inl leads
  fresh stands := by simp at stands
  abides kept w u i acked := by
    have grows := propose_extends sound leads own
    rcases acked with old | ⟨rfl, rfl, short⟩
    · obtain ⟨reached, short, carries⟩ := kept w u i old
      refine ⟨reached, short.trans (grows.led_front u).length_le, fun current => ?_⟩
      unfold Carries at carries ⊢
      rw [grows.take_eq short]
      by_cases same : w = v
      · subst same
        exact (carries current).trans (by simp)
      · simpa [same] using carries current
    · refine ⟨le_rfl, by simpa using short, fun _ => ?_⟩
      unfold Carries
      simpa using List.take_prefix i _

theorem accept_moves (reached : h.term v ≤ t) (short : m ≤ (h.led t).length) : h.Moves v (h.accept v t m) where
  keeps := accept_extends reached
  term w other := by simp [other]
  log w other := by simp [other]
  voted _ _ := rfl
  stands w other := by simp [other]
  leads w other := by simp [other]
  leader _ _ leads := Or.inl leads
  fresh stands := by simp at stands
  abides kept w u i acked := by
    rcases acked with old | ⟨rfl, rfl, inside⟩
    · obtain ⟨past, bound, carries⟩ := kept w u i old
      by_cases same : w = v
      · subst same
        simp only [accept_term, accept_log, accept_led, Function.update_self]
        refine ⟨past.trans reached, bound, ?_⟩
        rintro rfl
        exact kept.merge old (by omega) (List.take_prefix _ _)
      · simp only [accept_term, accept_log, accept_led, Function.update_of_ne same]
        exact ⟨past, bound, carries⟩
    · simp only [accept_term, accept_log, accept_led, Function.update_self]
      exact ⟨le_rfl, inside.trans short,
        fun _ => (List.take_prefix_take_left inside).trans (prefix_merge _ _)⟩

theorem resume_moves {log : List E} (longer : h.log v <+: log) : h.Moves v (h.resume v log) where
  keeps := resume_extends
  term _ _ := rfl
  log w other := by simp [other]
  voted _ _ := rfl
  stands w other := by simp [other]
  leads w other := by simp [other]
  leader _ _ leads := Or.inl leads
  fresh stands := by simp at stands
  abides kept w u i acked := by
    obtain ⟨reached, short, carries⟩ := kept w u i acked
    refine ⟨reached, short, fun current => ?_⟩
    by_cases same : w = v
    · subst same
      simpa [Carries] using (carries current).trans longer
    · simpa [Carries, same] using carries current

theorem install_moves (sound : h.Sound quorum)
    (intersects : ∀ left right, quorum left → quorum right → ∃ v, v ∈ left ∧ v ∈ right) {i : ℕ}
    (committed : h.Committed quorum t i) (short : k ≤ i) (reached : t ≤ h.term v)
    (behind : h.stands v → t < h.term v) : h.Moves v (h.install v t k) where
  keeps := install_extends intersects sound committed short behind
  term _ _ := rfl
  log w other := by simp [other]
  voted _ _ := rfl
  stands _ _ := rfl
  leads _ _ := rfl
  leader _ _ leads := Or.inl leads
  fresh stands := Or.inl stands
  abides kept w u j acked := by
    obtain ⟨past, bound, carries⟩ := kept w u j acked
    refine ⟨past, bound, fun current => ?_⟩
    by_cases same : w = v
    · subst same current
      have inside := sound.committed_carries intersects committed reached (sound.acked_bounded w _ j acked).2.2
      simpa [Carries] using kept.merge acked rfl ((List.take_prefix_take_left short).trans inside)
    · simpa [Carries, same] using carries current

end Ledger

end Raftiq.Consensus
