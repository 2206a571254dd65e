import Raftiq.Cluster
import Raftiq.Raft.LogView
import Raftiq.Storage.Survivors

namespace Raftiq

namespace RaftNode

/-- A log takes the stored entries in exactly when they continue it. -/
theorem appendAll_ok_iff {log : Log} {entries : List LogEntry} :
    (∃ after, appendAll log entries = .ok after) ↔ Numbered log.lastIndex entries := by
  induction entries generalizing log with
  | nil => simp [appendAll, Numbered]
  | cons entry rest ih =>
      simp only [appendAll, Numbered]
      rcases log.append_cases entry with ⟨after, appended, next, _, _, _, last⟩ | ⟨other, refused⟩
      · rw [appended]
        simp only [ih, next, last, true_and]
      · rw [refused]
        simp [other]

theorem appendAll_entries {log after : Log} {entries : List LogEntry}
    (appended : appendAll log entries = .ok after) :
    after.entries = log.entries ++ entries ∧ after.lastIncludedIndex = log.lastIncludedIndex ∧
      after.lastIncludedTerm = log.lastIncludedTerm := by
  induction entries generalizing log with
  | nil =>
      cases appended
      simp
  | cons entry rest ih =>
      simp only [appendAll] at appended
      split at appended
      · simp at appended
      · rename_i middle added
        rcases log.append_cases entry with ⟨after, added', _, grows, base, term, _⟩ | ⟨_, refused⟩
        · rw [added] at added'
          cases added'
          obtain ⟨grown, index, lastTerm⟩ := ih appended
          exact ⟨by simpa [grows] using grown, index.trans base, lastTerm.trans term⟩
        · simp [refused] at added

theorem appendAll_views {after : Log} {entries : List LogEntry}
    (appended : appendAll Log.new entries = .ok after) :
    after.Views entries ∧ after.lastIncludedIndex = 0 := by
  obtain ⟨grown, index, term⟩ := appendAll_entries appended
  have same : after.entries = entries := by simpa [Log.new] using grown
  have base : after.lastIncludedIndex = 0 := index
  refine ⟨⟨?_, by simp [base], by simp [base, same], ?_⟩, base⟩
  · have numbered := after.numbered
    rwa [base, same] at numbered
  · rw [base, termAt_zero]
    exact term

theorem restoreLog_ok_iff {contents : Contents} :
    (∃ log, restoreLog contents = .ok log) ↔ Numbered 0 contents.entries := by
  have base : Log.new.lastIndex = 0 := rfl
  rw [← base, ← appendAll_ok_iff]
  unfold restoreLog
  constructor
  · rintro ⟨log, restored⟩
    cases appended : appendAll Log.new contents.entries with
    | error error => simp [appended] at restored
    | ok after => exact ⟨after, rfl⟩
  · rintro ⟨after, appended⟩
    obtain ⟨_, zero⟩ := appendAll_views appended
    rw [appended]
    dsimp only
    split
    · rename_i positive
      rw [Log.restoreSnapshot_ok (by omega)]
      exact ⟨_, rfl⟩
    · exact ⟨_, rfl⟩

/-- What the recovered log holds: the entries above the snapshot, unless the entry at its
index has another term and everything is dropped. -/
theorem restoreLog_entries {contents : Contents} {log : Log} (restored : restoreLog contents = .ok log) :
    log.lastIncludedIndex = contents.loadSnapshot.lastIncludedIndex ∧
      (log.entries = contents.entries.drop contents.loadSnapshot.lastIncludedIndex ∧
          (contents.loadSnapshot.lastIncludedIndex = 0 ∨
            termAt contents.entries contents.loadSnapshot.lastIncludedIndex =
              contents.loadSnapshot.lastIncludedTerm) ∨
        log.entries = [] ∧ 0 < contents.loadSnapshot.lastIncludedIndex ∧
          (contents.entries.length < contents.loadSnapshot.lastIncludedIndex ∨
            termAt contents.entries contents.loadSnapshot.lastIncludedIndex ≠
              contents.loadSnapshot.lastIncludedTerm)) := by
  unfold restoreLog at restored
  split at restored
  · simp at restored
  · rename_i whole appended
    obtain ⟨views, zero⟩ := appendAll_views appended
    split at restored
    · rename_i positive
      split at restored
      · simp at restored
      · rename_i after restoredLog
        cases restored
        rw [Log.restoreSnapshot_ok (by omega), Except.ok.injEq] at restoredLog
        split at restoredLog
        · rename_i agree
          subst restoredLog
          refine ⟨rfl, Or.inl ?_⟩
          cases found : whole.get contents.loadSnapshot.lastIncludedIndex with
          | none => simp [Log.boundaryMatches, found] at agree
          | some entry =>
              obtain ⟨_, _, _, _, term⟩ := views.get_some found
              simp only [Log.boundaryMatches, found, Option.any_some, decide_eq_true_eq] at agree
              refine ⟨?_, Or.inr (by rw [← term, agree])⟩
              change whole.entries.filter _ = _
              rw [whole.numbered.filter_index, views.entries, zero, List.drop_zero, Nat.sub_zero]
        · rename_i disagree
          subst restoredLog
          refine ⟨rfl, Or.inr ⟨rfl, positive, ?_⟩⟩
          cases found : whole.get contents.loadSnapshot.lastIncludedIndex with
          | none =>
              rcases views.get_eq_none found with none | below | beyond
              · omega
              · omega
              · exact Or.inl beyond
          | some entry =>
              obtain ⟨_, _, _, _, term⟩ := views.get_some found
              simp only [Log.boundaryMatches, found, Option.any_some, decide_eq_true_eq] at disagree
              exact Or.inr (term ▸ disagree)
    · rename_i notPositive
      cases restored
      have none : contents.loadSnapshot.lastIncludedIndex = 0 := by omega
      refine ⟨by rw [zero, none], Or.inl ⟨?_, Or.inl none⟩⟩
      rw [views.entries, zero, none]

end RaftNode

namespace Contents

/-- Storage from which a node recovers all it holds: its entries begin at index one, and
the entry at the snapshot's index, if anything follows it, is the one the snapshot ends with. -/
def Restartable (contents : Contents) : Prop :=
  Numbered 0 contents.entries ∧
    (contents.loadSnapshot.lastIncludedIndex = 0 ∨
      contents.entries.length ≤ contents.loadSnapshot.lastIncludedIndex ∨
      termAt contents.entries contents.loadSnapshot.lastIncludedIndex =
        contents.loadSnapshot.lastIncludedTerm)

end Contents

namespace RaftNode

/-- The new node is the storage's refinement of the old one: it has the term, vote and membership of
`synced`, and the snapshot and the entries that are left. -/
structure Recovers (node : RaftNode) (synced contents : Contents) : Prop where
  persistent : node.persistent = synced.state
  committed : node.commitIndex = contents.loadSnapshot.lastIncludedIndex
  applied : node.lastApplied = contents.loadSnapshot.lastIncludedIndex
  boundary : node.log.lastIncludedIndex = contents.loadSnapshot.lastIncludedIndex
  entries : node.log.entries =
    contents.entries.filter (contents.loadSnapshot.lastIncludedIndex < ·.index)

def restartFails (id : NodeID) (wal : WALStorage) (keep : ℕ) : Bool :=
  match wal.reopen keep with
  | .error _ => false
  | .ok reopened =>
      match newRaftNodeWithStorage id reopened with
      | .error _ => true
      | .ok _ => false

theorem restartFails_iff {id : NodeID} {wal : WALStorage} {keep : ℕ} :
    restartFails id wal keep ↔
      ∃ reopened error, wal.reopen keep = .ok reopened ∧ newRaftNodeWithStorage id reopened = .error error := by
  unfold restartFails
  cases opened : wal.reopen keep with
  | error error => simp
  | ok reopened =>
      cases started : newRaftNodeWithStorage id reopened with
      | error error => simp [started]
      | ok node => simp [started]

end RaftNode

end Raftiq
