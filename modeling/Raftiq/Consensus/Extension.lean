import Raftiq.Consensus.Ledger

namespace Raftiq.Consensus

open Stamped

variable {N E : Type*} [Stamped E]

namespace Ledger

/-- A candidate that asked for votes with `log` still carries what that log carried. -/
def Advertised (h : Ledger N E) (c : N) (u : ℕ) (log : List E) : Prop :=
  u ≤ h.term c ∧ h.Rooted log ∧ (∀ entry ∈ log, stamp entry < u) ∧
    (h.stands c → h.term c = u → ∀ t i, t < u → h.Marks t i → h.Carries log t i →
      h.Carries (h.log c) t i ∨ (∃ s, s < u ∧ h.Fork t i s) ∨ (h.leader u).isSome)

/-- What no step of the protocol takes back. -/
structure Extends (h later : Ledger N E) : Prop where
  term_le : ∀ v, h.term v ≤ later.term v
  voted : ∀ v t c, h.voted v t = some c → later.voted v t = some c
  leader : ∀ t c, h.leader t = some c → later.leader t = some c
  electors : ∀ t, (h.leader t).isSome → later.electors t = h.electors t
  led_front : ∀ t, h.led t <+: later.led t
  led_added : ∀ t, (h.leader t).isSome →
    ∃ added, later.led t = h.led t ++ added ∧ ∀ entry ∈ added, stamp entry = t
  acked : ∀ v t i, h.acked v t i → later.acked v t i
  advertised : ∀ c u log, h.Advertised c u log → later.Advertised c u log

theorem Extends.refl (h : Ledger N E) : h.Extends h where
  term_le _ := le_rfl
  voted _ _ _ voted := voted
  leader _ _ leads := leads
  electors _ _ := rfl
  led_front _ := List.prefix_refl _
  led_added _ _ := ⟨[], by simp⟩
  acked _ _ _ acked := acked
  advertised _ _ _ advertised := advertised

variable {h later : Ledger N E} {quorum : Set N → Prop}

theorem Extends.leader_isSome (extends_ : h.Extends later) {t : ℕ}
    (leads : (h.leader t).isSome) : (later.leader t).isSome := by
  obtain ⟨c, leader⟩ := Option.isSome_iff_exists.mp leads
  simp [extends_.leader t c leader]

theorem Extends.trans {middle : Ledger N E} (first : h.Extends middle)
    (second : middle.Extends later) : h.Extends later where
  term_le v := (first.term_le v).trans (second.term_le v)
  voted v t c voted := second.voted v t c (first.voted v t c voted)
  leader t c leads := second.leader t c (first.leader t c leads)
  electors t leads := (second.electors t (first.leader_isSome leads)).trans (first.electors t leads)
  led_front t := (first.led_front t).trans (second.led_front t)
  led_added t leads := by
    obtain ⟨front, grown, own⟩ := first.led_added t leads
    obtain ⟨back, grownAgain, ownAgain⟩ := second.led_added t (first.leader_isSome leads)
    refine ⟨front ++ back, by rw [grownAgain, grown, List.append_assoc], ?_⟩
    intro entry member
    rcases List.mem_append.mp member with early | late
    · exact own entry early
    · exact ownAgain entry late
  acked v t i acked := second.acked v t i (first.acked v t i acked)
  advertised c u log advertised := second.advertised c u log (first.advertised c u log advertised)

theorem Extends.take_eq (extends_ : h.Extends later) {t i : ℕ} (short : i ≤ (h.led t).length) :
    (later.led t).take i = (h.led t).take i := by
  obtain ⟨added, grown⟩ := extends_.led_front t
  rw [← grown, List.take_append_of_le_length short]

theorem Extends.marks (extends_ : h.Extends later) {t i : ℕ} (marks : h.Marks t i) :
    later.Marks t i := by
  obtain ⟨front, last, inside, length, own⟩ := marks
  exact ⟨front, last, inside.trans (extends_.led_front t), length, own⟩

theorem Extends.rooted (extends_ : h.Extends later) {log : List E} (rooted : h.Rooted log) :
    later.Rooted log := by
  intro front last inside
  obtain ⟨leads, below⟩ := rooted front last inside
  exact ⟨extends_.leader_isSome leads, below.trans (extends_.led_front _)⟩

theorem Extends.carries_iff (extends_ : h.Extends later) {log : List E} {t i : ℕ}
    (marks : h.Marks t i) : later.Carries log t i ↔ h.Carries log t i := by
  unfold Carries
  rw [extends_.take_eq marks.length_le]

theorem Extends.committed (extends_ : h.Extends later) {t i : ℕ}
    (committed : h.Committed quorum t i) : later.Committed quorum t i := by
  obtain ⟨marks, nodes, enough, acked⟩ := committed
  exact ⟨extends_.marks marks, nodes, enough, fun v member => extends_.acked v t i (acked v member)⟩

omit [Stamped E] in
/-- An entry on top of a prefix is either inside the front or one of the added entries. -/
theorem prefix_append_cases {front added log : List E} {last : E}
    (inside : front ++ [last] <+: log ++ added) : front ++ [last] <+: log ∨ last ∈ added := by
  rcases Nat.lt_or_ge front.length log.length with short | long
  · exact Or.inl (List.prefix_of_prefix_length_le inside (List.prefix_append _ _)
      (by simpa using Nat.succ_le_of_lt short))
  · right
    have bound := inside.length_le
    simp only [List.length_append, List.length_singleton] at bound
    have same := inside.getElem (i := front.length) (by simp)
    rw [List.getElem_append_right long] at same
    simp only [List.getElem_concat_length] at same
    rw [same]
    exact List.getElem_mem _

/-- A fork never heals: entries that a later leader adds carry its own term. -/
theorem Extends.fork (extends_ : h.Extends later) {t i s : ℕ} (marks : h.Marks t i)
    (fork : h.Fork t i s) : later.Fork t i s := by
  obtain ⟨after, leads, lost⟩ := fork
  refine ⟨after, extends_.leader_isSome leads, fun carries => lost ?_⟩
  rw [extends_.carries_iff marks] at carries
  obtain ⟨added, grown, own⟩ := extends_.led_added s leads
  obtain ⟨front, last, taken, _, stamped⟩ := marks.take_eq
  unfold Carries at carries ⊢
  rw [taken, grown] at carries
  rw [taken]
  rcases prefix_append_cases carries with inside | member
  · exact inside
  · have := own last member
    omega

end Ledger

end Raftiq.Consensus
