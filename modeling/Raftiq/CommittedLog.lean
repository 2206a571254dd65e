import Raftiq.AnnouncedCommits
import Raftiq.IndexOrder

namespace Raftiq

open Consensus

/-! The entries that the leaders of a run have committed, as one list. -/

namespace World

def commitIndexes (world : World) : List ℕ :=
  world.trace.filterMap fun entry =>
    match entry.2 with
    | .committed _ index _ => some index
    | _ => none

variable {world : World} {cluster : Cluster} {h : History} {committed : List LogEntry} {v : NodeID}

theorem Announced.mono {after : World} {index : ℕ} (announced : world.Announced index)
    (kept : world.trace ⊆ after.trace) : after.Announced index := by
  rcases announced with zero | ⟨v, t, commitIndex, log, seen, high⟩
  · exact Or.inl zero
  · exact Or.inr ⟨v, t, commitIndex, log, kept seen, high⟩

theorem mem_commitIndexes {index : ℕ} :
    index ∈ world.commitIndexes ↔ ∃ v t log, (v, .committed t index log) ∈ world.trace := by
  constructor
  · intro member
    obtain ⟨⟨v, observation⟩, seen, same⟩ := List.mem_filterMap.mp member
    cases observation with
    | committed t c log =>
        cases same
        exact ⟨v, t, log, seen⟩
    | _ => cases same
  · rintro ⟨v, t, log, seen⟩
    exact List.mem_filterMap.mpr ⟨_, seen, rfl⟩

theorem Tracks.running {regime : Regime} (tracks : world.Tracks cluster regime h) {process : Process}
    (up : world.host v = .up process) : process.Tracks cluster regime h v := by
  have hosted := tracks.host v
  rw [up] at hosted
  exact hosted

/-- A list of committed entries that ends where the leader that has committed most has committed. -/
structure Commits (cluster : Cluster) (h : History) (world : World) (committed : List LogEntry) : Prop where
  covers : ∀ index, world.Announced index → index ≤ committed.length
  secured : ∃ bound, h.Secured cluster.Quorum bound committed

namespace Commits

theorem numbered (commits : world.Commits cluster h committed) (valid : cluster.Valid h) :
    Numbered 0 committed := by
  obtain ⟨bound, secured⟩ := commits.secured
  exact valid.rooted_numbered (secured.rooted valid.sound)

/-- The list agrees with everything that is committed. -/
theorem agrees (commits : world.Commits cluster h committed) (valid : cluster.Valid h) {t i k : ℕ}
    (quorum : h.Committed cluster.Quorum t i) (below : k ≤ i) (short : k ≤ committed.length) :
    committed.take k = (h.led t).take k := by
  obtain ⟨bound, empty | ⟨u, j, quorumToo, _, long, inside⟩⟩ := commits.secured
  · have zero : k = 0 := by simpa [empty] using short
    simp [zero]
  · rw [← take_eq_of_front inside short]
    exact valid.sound.committed_agree cluster.quorum_intersects quorumToo quorum (short.trans long) below

theorem mem_of_sound (commits : world.Commits cluster h committed) (valid : cluster.Valid h)
    {entry : LogEntry} (sound : EntrySound cluster h entry) (short : entry.index ≤ committed.length) :
    entry ∈ committed := by
  obtain ⟨t, i, quorum, member⟩ := sound
  obtain ⟨positive, below, found⟩ := valid.committed_entry member
  rw [← List.getElem?_take_of_lt (by omega : entry.index - 1 < entry.index),
    ← commits.agrees valid quorum below short] at found
  exact List.mem_of_mem_take (List.mem_of_getElem? found)

end Commits

theorem Tracks.commits {regime : Regime} (tracks : world.Tracks cluster regime h) :
    ∃ committed, world.Commits cluster h committed := by
  cases most : world.commitIndexes.max? with
  | none =>
      refine ⟨[], fun index announced => ?_, 0, Or.inl rfl⟩
      rcases announced with zero | ⟨v, t, commitIndex, log, seen, _⟩
      · exact zero.le
      · have member := mem_commitIndexes.mpr ⟨v, t, log, seen⟩
        rw [List.max?_eq_none_iff.mp most] at member
        cases member
  | some largest =>
      obtain ⟨member, above⟩ := List.max?_eq_some_iff.mp most
      obtain ⟨v, t, log, seen⟩ := mem_commitIndexes.mp member
      obtain ⟨_, full, _, inside, short, j, far, quorum⟩ := tracks.trace _ seen
      have length : ((h.led t).take largest).length = largest := by
        rw [List.length_take, Nat.min_eq_left (short.trans inside.length_le)]
      refine ⟨(h.led t).take largest, fun index announced => ?_,
        t, Or.inr ⟨t, j, quorum, le_rfl, by omega, List.take_prefix _ _⟩⟩
      rw [length]
      rcases announced with zero | ⟨w, u, commitIndex, other, seenToo, below⟩
      · omega
      · exact below.trans (above _ (mem_commitIndexes.mpr ⟨w, u, other, seenToo⟩))

/-- What is committed stays committed, and more may follow. -/
theorem Commits.extend {after : World} {regime : Regime} {later : History}
    (commits : world.Commits cluster h committed) (keeps : h.Extends later)
    (tracks : after.Tracks cluster regime later) :
    ∃ longer, committed <+: longer ∧ after.Commits cluster later longer := by
  obtain ⟨other, commitsToo⟩ := tracks.commits
  obtain ⟨bound, secured⟩ := commits.secured
  obtain ⟨boundToo, securedToo⟩ := commitsToo.secured
  have kept := secured.mono keeps le_rfl
  rcases kept.comparable tracks.valid.sound cluster.quorum_intersects securedToo with inside | beyond
  · exact ⟨other, inside, commitsToo⟩
  · refine ⟨committed, List.prefix_rfl, fun index announced => ?_, bound, kept⟩
    exact (commitsToo.covers index announced).trans beyond.length_le

end World

namespace Cluster

variable {cluster : Cluster} {h : History} {world : World} {v : NodeID} {process : Process}

theorem announced_commit {allowed : World → Action → Prop}
    (reached : Reaches cluster.step allowed cluster.initial world) (up : world.host v = .up process) :
    world.Announced process.node.commitIndex := by
  refine announced_of_below reached fun bound below => ?_
  have hosted := below.host v
  rw [up] at hosted
  exact hosted.commit

/-- What a node has in its log up to its commit index is committed. -/
theorem committed_sound {regime : Regime} (commits : regime.commits)
    (running : process.Tracks cluster regime h v) {entry : LogEntry} {index : ℕ}
    (found : process.node.log.get index = some entry) (above : process.node.log.lastIncludedIndex < index)
    (behind : index ≤ process.node.commitIndex) : EntrySound cluster h entry := by
  obtain ⟨_, secured⟩ := running.node.commit commits
  have inside : index - 1 < process.node.commitIndex := by omega
  rw [running.node.log.get_above above, ← List.getElem?_take_of_lt inside] at found
  have member := List.mem_of_getElem? found
  rcases secured with empty | ⟨t, i, quorum, _, short, inside⟩
  · rw [empty] at member
    cases member
  · exact ⟨t, i, quorum, (List.prefix_take_iff.mpr ⟨inside, short⟩).subset member⟩

theorem nextCommitted_sound {regime : Regime} (commits : regime.commits)
    (running : process.Tracks cluster regime h v) {entry : LogEntry}
    (next : process.node.nextCommitted = some entry) : EntrySound cluster h entry := by
  have applied := running.node.applied
  exact committed_sound commits running (RaftNode.nextCommitted_index next).1 (by omega)
    (RaftNode.nextCommitted_behind next)

end Cluster

end Raftiq
