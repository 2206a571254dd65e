import Raftiq.Cluster
import Raftiq.Consensus.Moves
import Raftiq.Consensus.Secured
import Raftiq.Raft.LogView

namespace Raftiq

open Consensus

instance : Stamped LogEntry := ⟨LogEntry.term⟩

@[simp] theorem stamp_eq_term (entry : LogEntry) : Stamped.stamp entry = entry.term := rfl

/-- The abstract protocol's record of a cluster, with uncompacted logs. -/
abbrev History := Ledger NodeID LogEntry

theorem take_eq_concat {log : List LogEntry} {index : ℕ} (positive : 0 < index)
    (short : index ≤ log.length) :
    ∃ front last, log.take index = front ++ [last] ∧ front.length + 1 = index ∧
      termAt log index = last.term := by
  cases taken : log.take index using List.reverseRecOn with
  | nil =>
      have length := congrArg List.length taken
      rw [List.length_take, Nat.min_eq_left short] at length
      simp at length
      omega
  | append_singleton front last _ =>
      have length := congrArg List.length taken
      rw [List.length_take, Nat.min_eq_left short] at length
      simp only [List.length_append, List.length_singleton] at length
      refine ⟨front, last, rfl, length.symm, ?_⟩
      simp [termAt, taken]

theorem position_eq_termAt (log : List LogEntry) :
    position log = toLex (termAt log log.length, log.length) := by
  simp only [position, termAt, List.take_length]
  rfl

/-- Rooted logs with one term at one index agree up to it. -/
theorem take_eq_of_termAt {h : History} {left right : List LogEntry} {index : ℕ} (rooted : h.Rooted left)
    (rootedToo : h.Rooted right) (short : index ≤ left.length) (shortToo : index ≤ right.length)
    (same : termAt left index = termAt right index) : left.take index = right.take index := by
  rcases Nat.eq_zero_or_pos index with rfl | positive
  · simp
  · obtain ⟨front, last, taken, length, term⟩ := take_eq_concat positive short
    obtain ⟨other, final, takenToo, lengthToo, termToo⟩ := take_eq_concat positive shortToo
    rw [taken, takenToo]
    apply rooted.agree rootedToo
    · exact taken ▸ List.take_prefix _ _
    · exact takenToo ▸ List.take_prefix _ _
    · omega
    · simp only [stamp_eq_term]
      omega

theorem termsMatch_of_rooted {h : History} {left right : List LogEntry} (rooted : h.Rooted left)
    (rootedToo : h.Rooted right) : TermsMatch left right :=
  fun _ short shortToo same => take_eq_of_termAt rooted rootedToo short shortToo same

theorem take_eq_of_front {front log : List LogEntry} (inside : front <+: log) {index : ℕ}
    (short : index ≤ front.length) : log.take index = front.take index := by
  obtain ⟨back, rfl⟩ := inside
  exact List.take_append_of_le_length short

theorem mem_front {log : List LogEntry} {entry : LogEntry} (member : entry ∈ log) :
    ∃ front, front ++ [entry] <+: log := by
  obtain ⟨front, back, rfl⟩ := List.append_of_mem member
  exact ⟨front, back, by simp⟩

namespace Cluster

def Quorum (cluster : Cluster) : Set NodeID → Prop :=
  cluster.membership.IsQuorum

variable {cluster : Cluster} {h later : History} {v c : NodeID} {t m k : ℕ} {entry : LogEntry}

theorem quorum_intersects (cluster : Cluster) (left right : Set NodeID) (enough : cluster.Quorum left)
    (enoughToo : cluster.Quorum right) : ∃ v, v ∈ left ∧ v ∈ right :=
  Membership.IsQuorum.intersects cluster.membership left right enough enoughToo

/-- Leaders number their entries from one and propose no configuration. -/
structure Valid (cluster : Cluster) (h : History) : Prop where
  sound : h.Sound cluster.Quorum
  numbered : ∀ t, Numbered 0 (h.led t)
  plain : ∀ t, ∀ entry ∈ h.led t, ¬ isConfigurationEntry entry.data

theorem empty_valid (cluster : Cluster) : cluster.Valid .empty where
  sound := Ledger.empty_sound _
  numbered _ := trivial
  plain _ _ member := by simp [Ledger.empty] at member

namespace Valid

theorem rooted_plain (valid : cluster.Valid h) {log : List LogEntry} (rooted : h.Rooted log)
    (member : entry ∈ log) : ¬ isConfigurationEntry entry.data := by
  obtain ⟨front, inside⟩ := mem_front member
  have below := (rooted front entry inside).2
  exact valid.plain _ entry (below.subset (by simp))

theorem rooted_numbered (valid : cluster.Valid h) {log : List LogEntry} (rooted : h.Rooted log) :
    Numbered 0 log := by
  cases log using List.reverseRecOn with
  | nil => trivial
  | append_singleton front last _ =>
      exact (valid.numbered last.term).of_front (rooted front last (List.prefix_refl _)).2

theorem advance (valid : cluster.Valid h) (ahead : h.term v ≤ t) : cluster.Valid (h.advance v t) where
  sound := Ledger.advance_sound valid.sound ahead
  numbered := valid.numbered
  plain := valid.plain

theorem stand (valid : cluster.Valid h) (ahead : h.term v < t) : cluster.Valid (h.stand v t) where
  sound := Ledger.stand_sound valid.sound ahead
  numbered := valid.numbered
  plain := valid.plain

theorem vote (valid : cluster.Valid h) {log : List LogEntry} (fresh : h.voted v (h.term v) = none)
    (advertised : h.Advertised c (h.term v) log) (upToDate : position (h.log v) ≤ position log) :
    cluster.Valid (h.vote v c) where
  sound := Ledger.vote_sound valid.sound fresh advertised upToDate
  numbered := valid.numbered
  plain := valid.plain

theorem elect (valid : cluster.Valid h) {votes : Set NodeID} (stands : h.stands v)
    (vacant : h.leader (h.term v) = none) (enough : cluster.Quorum votes)
    (votesFor : ∀ voter ∈ votes, h.voted voter (h.term v) = some v) (numbered : Numbered 0 (h.log v)) :
    cluster.Valid (h.elect v votes) where
  sound := Ledger.elect_sound valid.sound stands vacant enough votesFor
  numbered u := by
    by_cases now : u = h.term v
    · simpa [now] using numbered
    · simpa [now] using valid.numbered u
  plain u entry member := by
    by_cases now : u = h.term v
    · simp only [now, Ledger.elect_led, Function.update_self] at member
      exact valid.rooted_plain (valid.sound.log_rooted v) member
    · simp only [Ledger.elect_led, Function.update_of_ne now] at member
      exact valid.plain u entry member

theorem propose (valid : cluster.Valid h) (leads : h.leads v) (own : entry.term = h.term v)
    (next : entry.index = (h.log v).length + 1) (command : ¬ isConfigurationEntry entry.data) :
    cluster.Valid (h.propose v entry) where
  sound := Ledger.propose_sound valid.sound leads own
  numbered u := by
    rw [Ledger.propose_led_eq leads valid.sound]
    split
    · rename_i now
      refine Numbered.append_iff.mpr ⟨valid.numbered u, ?_, trivial⟩
      rw [now, ← valid.sound.leads_log v leads, next, Nat.zero_add]
    · simpa using valid.numbered u
  plain u added member := by
    rw [Ledger.propose_led_eq leads valid.sound] at member
    rcases List.mem_append.mp member with old | new
    · exact valid.plain u added old
    · split at new
      · rw [List.mem_singleton.mp new]
        exact command
      · simp at new

theorem accept (valid : cluster.Valid h) (leads : (h.leader t).isSome) (reached : h.term v ≤ t)
    (short : m ≤ (h.led t).length) : cluster.Valid (h.accept v t m) where
  sound := Ledger.accept_sound valid.sound leads reached short
  numbered := valid.numbered
  plain := valid.plain

theorem resume (valid : cluster.Valid h) {log : List LogEntry} (kept : h.log v <+: log)
    (rooted : h.Rooted log) (bounded : ∀ entry ∈ log, entry.term ≤ h.term v) :
    cluster.Valid (h.resume v log) where
  sound := Ledger.resume_sound valid.sound kept rooted bounded
  numbered := valid.numbered
  plain := valid.plain

theorem install (valid : cluster.Valid h) {i : ℕ} (committed : h.Committed cluster.Quorum t i)
    (short : k ≤ i) (reached : t ≤ h.term v) (behind : h.stands v → t < h.term v) :
    cluster.Valid (h.install v t k) where
  sound := Ledger.install_sound cluster.quorum_intersects valid.sound committed short reached behind
  numbered := valid.numbered
  plain := valid.plain

end Valid

end Cluster

end Raftiq
