import Mathlib.Data.Prod.Lex
import Mathlib.Data.Set.Basic
import Mathlib.Data.List.Infix
import Mathlib.Order.Basic

namespace Raftiq.Consensus

/-! # Leader-based log replication

The abstract protocol: nodes vote in numbered terms, a term has at most one
leader, the leader's log of a term only grows, and every other log is copied
from the logs of leaders.  A `Ledger` is the whole history such a protocol
leaves behind that later steps still depend on.  Nothing here knows about
messages, persistence or compaction; those are concerns of an implementation.
-/

/-- Log entries that remember the term of the leader that created them. -/
class Stamped (E : Type*) where
  stamp : E → ℕ

open Stamped

variable {N E : Type*} [Stamped E]

/-- The position elections compare: the term of the last entry, then the length. -/
def position (log : List E) : ℕ ×ₗ ℕ :=
  toLex ((log.getLast?.map stamp).getD 0, log.length)

@[simp] theorem position_nil : position ([] : List E) = toLex (0, 0) := rfl

@[simp] theorem position_concat (front : List E) (last : E) :
    position (front ++ [last]) = toLex (stamp last, front.length + 1) := by
  simp [position]

structure Ledger (N E : Type*) where
  /-- The term each node has reached. -/
  term : N → ℕ
  log : N → List E
  /-- The vote a node has cast in a term. -/
  voted : N → ℕ → Option N
  /-- A node that asks for votes in the term it has reached. -/
  stands : N → Prop
  /-- A node that acts as the leader of the term it has reached. -/
  leads : N → Prop
  leader : ℕ → Option N
  /-- Everything the leader of a term has held while leading it. -/
  led : ℕ → List E
  /-- The votes the leader of a term was elected with. -/
  electors : ℕ → Set N
  /-- `acked v t i`: node `v` has stored the first `i` entries of leader `t`. -/
  acked : N → ℕ → ℕ → Prop

namespace Ledger

def empty : Ledger N E where
  term _ := 0
  log _ := []
  voted _ _ := none
  stands _ := False
  leads _ := False
  leader _ := none
  led _ := []
  electors _ := ∅
  acked _ _ _ := False

variable (h : Ledger N E)

/-- Entry `i` of leader `t` was created by that leader itself. -/
def Marks (t i : ℕ) : Prop :=
  ∃ front last, front ++ [last] <+: h.led t ∧ front.length + 1 = i ∧ stamp last = t

def Carries (log : List E) (t i : ℕ) : Prop :=
  (h.led t).take i <+: log

/-- A later leader `s` whose log does not contain the first `i` entries of leader `t`. -/
def Fork (t i s : ℕ) : Prop :=
  t < s ∧ (h.leader s).isSome ∧ ¬ h.Carries (h.led s) t i

/-- Every entry of the log, with everything below it, came from the leader of
the entry's term. -/
def Rooted (log : List E) : Prop :=
  ∀ front last, front ++ [last] <+: log →
    (h.leader (stamp last)).isSome ∧ front ++ [last] <+: h.led (stamp last)

def Committed (quorum : Set N → Prop) (t i : ℕ) : Prop :=
  h.Marks t i ∧ ∃ nodes, quorum nodes ∧ ∀ v ∈ nodes, h.acked v t i

/-- What every reachable ledger satisfies. -/
structure Sound (quorum : Set N → Prop) : Prop where
  log_bounded : ∀ v, ∀ entry ∈ h.log v, stamp entry ≤ h.term v
  led_bounded : ∀ t, ∀ entry ∈ h.led t, stamp entry ≤ t
  log_rooted : ∀ v, h.Rooted (h.log v)
  led_rooted : ∀ t, h.Rooted (h.led t)
  led_empty : ∀ t, h.leader t = none → h.led t = []
  stands_fresh : ∀ c, h.stands c → ∀ entry ∈ h.log c, stamp entry < h.term c
  voted_bounded : ∀ v t c, h.voted v t = some c → t ≤ h.term v
  voted_reached : ∀ v t c, h.voted v t = some c → t ≤ h.term c
  leader_bounded : ∀ t c, h.leader t = some c → t ≤ h.term c
  leads_leader : ∀ v, h.leads v → h.leader (h.term v) = some v
  leads_log : ∀ v, h.leads v → h.log v = h.led (h.term v)
  electors_quorum : ∀ t, (h.leader t).isSome → quorum (h.electors t)
  electors_voted : ∀ t c, h.leader t = some c → ∀ v ∈ h.electors t, h.voted v t = some c
  acked_bounded : ∀ v t i, h.acked v t i →
    t ≤ h.term v ∧ i ≤ (h.led t).length ∧ (h.leader t).isSome
  /-- A stored entry stays stored until a leader without it has taken over. -/
  acked_kept : ∀ v t i, h.acked v t i → h.Marks t i →
    h.Carries (h.log v) t i ∨ ∃ s, s ≤ h.term v ∧ h.Fork t i s
  /-- Whoever votes makes sure that the candidate carries what the voter stored. -/
  endorsed : ∀ v c, h.stands c → h.voted v (h.term c) = some c →
    ∀ t i, t < h.term c → h.acked v t i → h.Marks t i →
      h.Carries (h.log c) t i ∨ (∃ s, s < h.term c ∧ h.Fork t i s) ∨
        (h.leader (h.term c)).isSome
  elected : ∀ u, (h.leader u).isSome → ∀ v ∈ h.electors u,
    ∀ t i, t < u → h.acked v t i → h.Marks t i →
      h.Carries (h.led u) t i ∨ ∃ s, s < u ∧ h.Fork t i s

theorem empty_sound (quorum : Set N → Prop) : (empty : Ledger N E).Sound quorum where
  log_bounded v entry member := by simp [empty] at member
  led_bounded t entry member := by simp [empty] at member
  log_rooted v front last below := by simp [empty] at below
  led_rooted t front last below := by simp [empty] at below
  led_empty t none := rfl
  stands_fresh c stands := stands.elim
  voted_bounded v t c voted := by simp [empty] at voted
  voted_reached v t c voted := by simp [empty] at voted
  leader_bounded t c leads := by simp [empty] at leads
  leads_leader v leads := leads.elim
  leads_log v leads := leads.elim
  electors_quorum t leads := by simp [empty] at leads
  electors_voted t c leads := by simp [empty] at leads
  acked_bounded v t i acked := acked.elim
  acked_kept v t i acked := acked.elim
  endorsed v c stands := stands.elim
  elected u leads := by simp [empty] at leads

variable {h} {quorum : Set N → Prop}

theorem Marks.length_le {t i : ℕ} (marks : h.Marks t i) : i ≤ (h.led t).length := by
  obtain ⟨front, last, below, rfl, _⟩ := marks
  simpa using below.length_le

theorem Marks.leader (sound : h.Sound quorum) {t i : ℕ} (marks : h.Marks t i) :
    (h.leader t).isSome := by
  obtain ⟨front, last, below, _, _⟩ := marks
  cases leads : h.leader t with
  | some c => rfl
  | none =>
      rw [sound.led_empty t leads] at below
      simp at below

theorem Marks.take_eq {t i : ℕ} (marks : h.Marks t i) :
    ∃ front last, (h.led t).take i = front ++ [last] ∧ front.length + 1 = i ∧ stamp last = t := by
  obtain ⟨front, last, below, rfl, own⟩ := marks
  refine ⟨front, last, ?_, rfl, own⟩
  rw [List.prefix_iff_eq_take] at below
  simpa using below.symm

theorem Carries.reaches {log : List E} {t i : ℕ} (marks : h.Marks t i)
    (carries : h.Carries log t i) : i ≤ log.length := by
  have short := List.IsPrefix.length_le carries
  rwa [List.length_take, Nat.min_eq_left marks.length_le] at short

omit [Stamped E] in
theorem Carries.mono {log longer : List E} {t i : ℕ}
    (carries : h.Carries log t i) (below : log <+: longer) : h.Carries longer t i :=
  carries.trans below

theorem Rooted.of_front {log longer : List E}
    (rooted : h.Rooted longer) (below : log <+: longer) : h.Rooted log :=
  fun front last inside => rooted front last (inside.trans below)

/-- Entries below an entry of a rooted log have at most its term. -/
theorem Rooted.sorted (sound : h.Sound quorum) {log front : List E} {last : E}
    (rooted : h.Rooted log) (inside : front ++ [last] <+: log) :
    ∀ entry ∈ front, stamp entry ≤ stamp last := by
  intro entry member
  have below := (rooted front last inside).2
  exact sound.led_bounded _ entry (below.subset (List.mem_append_left _ member))

/-- A log that carries an entry of term `t` is at least as far as that entry. -/
theorem Carries.position_le (sound : h.Sound quorum) {log : List E} {t i : ℕ}
    (rooted : h.Rooted log) (marks : h.Marks t i) (carries : h.Carries log t i) :
    toLex (t, i) ≤ position log := by
  have long := carries.reaches marks
  obtain ⟨front, last, taken, rfl, own⟩ := marks.take_eq
  unfold Carries at carries
  rw [taken] at carries
  cases log using List.reverseRecOn with
  | nil => simp at carries
  | append_singleton rest final _ =>
      have sorted := rooted.sorted sound (List.prefix_refl _)
      have member : last ∈ rest ++ [final] := carries.subset (by simp)
      have termLe : t ≤ stamp final := by
        rcases List.mem_append.mp member with inside | same
        · exact own ▸ sorted last inside
        · rw [← own, List.mem_singleton.mp same]
      rw [position_concat, Prod.Lex.le_iff]
      simp only [List.length_append, List.length_singleton] at long
      rcases Nat.lt_or_eq_of_le termLe with earlier | same
      · exact Or.inl earlier
      · exact Or.inr ⟨same, long⟩

/-- A rooted log that is at least as far as entry `i` of leader `t` carries that
entry, unless the leader of its last entry had already lost it. -/
theorem Rooted.carries_of_position (sound : h.Sound quorum) {log : List E} {t i bound : ℕ}
    (rooted : h.Rooted log) (fresh : ∀ entry ∈ log, stamp entry < bound)
    (marks : h.Marks t i) (far : toLex (t, i) ≤ position log) :
    h.Carries log t i ∨ ∃ s, s < bound ∧ h.Fork t i s := by
  cases log using List.reverseRecOn with
  | nil =>
      obtain ⟨front, last, _, length, _⟩ := marks
      rw [position_nil, Prod.Lex.le_iff] at far
      simp only [ofLex_toLex, Nat.not_lt_zero, false_or] at far
      omega
  | append_singleton rest final _ =>
      obtain ⟨leads, below⟩ := rooted rest final (List.prefix_refl _)
      rw [position_concat, Prod.Lex.le_iff] at far
      rcases far with later | ⟨same, long⟩
      · change t < stamp final at later
        by_cases carries : h.Carries (h.led (stamp final)) t i
        · refine Or.inl (List.prefix_of_prefix_length_le carries below ?_)
          by_contra short
          -- otherwise the last entry lies inside the first `i` entries of leader `t`
          have inside := List.prefix_of_prefix_length_le below carries (by omega)
          have old := sound.led_bounded t final ((List.take_subset _ _) (inside.subset (by simp)))
          omega
        · exact Or.inr ⟨stamp final, fresh final (by simp), later, leads, carries⟩
      · change t = stamp final at same
        change i ≤ rest.length + 1 at long
        rw [← same] at below
        refine Or.inl (List.prefix_of_prefix_length_le (List.take_prefix _ _) below ?_)
        simp only [List.length_take, List.length_append, List.length_singleton]
        omega

/-- Two nodes cannot both be elected in a term. -/
theorem Sound.leader_unique (sound : h.Sound quorum)
    (intersects : ∀ left right, quorum left → quorum right → ∃ v, v ∈ left ∧ v ∈ right)
    {t : ℕ} {c : N} {votes : Set N} (enough : quorum votes)
    (votesFor : ∀ v ∈ votes, h.voted v t = some c) {other : N} (leads : h.leader t = some other) :
    other = c := by
  obtain ⟨v, elector, voter⟩ :=
    intersects _ _ (sound.electors_quorum t (by simp [leads])) enough
  have first := sound.electors_voted t other leads v elector
  rw [votesFor v voter] at first
  exact (Option.some.inj first).symm

/-- Leader completeness: a later leader holds every committed entry. -/
theorem Sound.later_leader_carries (sound : h.Sound quorum)
    (intersects : ∀ left right, quorum left → quorum right → ∃ v, v ∈ left ∧ v ∈ right)
    {t i u : ℕ} (committed : h.Committed quorum t i) (later : t < u)
    (leads : (h.leader u).isSome) : h.Carries (h.led u) t i := by
  induction u using Nat.strongRecOn with
  | ind u ih =>
      obtain ⟨marks, nodes, enough, acked⟩ := committed
      -- some elector of `u` had stored the entry before it voted
      obtain ⟨v, elector, stored⟩ := intersects _ _ (sound.electors_quorum u leads) enough
      rcases sound.elected u leads v elector t i later (acked v stored) marks with
        carries | ⟨s, earlier, between, ledBy, lost⟩
      · exact carries
      · exact absurd (ih s earlier between ledBy) lost

/-- The logs of two leaders agree on everything one of them committed. -/
theorem Sound.committed_carries (sound : h.Sound quorum)
    (intersects : ∀ left right, quorum left → quorum right → ∃ v, v ∈ left ∧ v ∈ right)
    {t i u : ℕ} (committed : h.Committed quorum t i) (later : t ≤ u)
    (leads : (h.leader u).isSome) : h.Carries (h.led u) t i := by
  rcases Nat.lt_or_eq_of_le later with after | rfl
  · exact sound.later_leader_carries intersects committed after leads
  · exact List.take_prefix _ _

/-- Two committed prefixes never disagree. -/
theorem Sound.committed_agree (sound : h.Sound quorum)
    (intersects : ∀ left right, quorum left → quorum right → ∃ v, v ∈ left ∧ v ∈ right)
    {t i u j k : ℕ} (first : h.Committed quorum t i) (second : h.Committed quorum u j)
    (belowFirst : k ≤ i) (belowSecond : k ≤ j) :
    (h.led t).take k = (h.led u).take k := by
  wlog ordered : t ≤ u generalizing t i u j
  · exact (this second first belowSecond belowFirst (Nat.le_of_not_le ordered)).symm
  have carries := sound.committed_carries intersects first ordered (second.1.leader sound)
  have short : (h.led t).take k <+: h.led u :=
    (List.take_prefix_take_left belowFirst).trans carries
  rw [List.prefix_iff_eq_take] at short
  rw [short, List.length_take, Nat.min_eq_left (belowFirst.trans first.1.length_le)]

end Ledger

end Raftiq.Consensus
