import Raftiq.Raft.Restart
import Raftiq.Raft.StoredLog

namespace Raftiq

namespace RaftNode

/-- The boundary, the commit index and the applied index after a restart. -/
def restartIndexes (id : NodeID) (store : WALStorage) : Except StartError (ℕ × ℕ × ℕ) :=
  (newRaftNodeWithStorage id store).map fun node =>
    (node.log.lastIncludedIndex, node.commitIndex, node.lastApplied)

/-- How an `InstallSnapshot` call that has persisted its snapshot fails, if nothing else happens while
it does not hold the lock: the handler returns an error, or the last section does. -/
def FailsInstall (node : RaftNode) (install : PendingInstall) (after : RaftNode) : Prop :=
  after = node ∨ ∃ fault reply, node.finishInstall install fault = .done after reply ∧ reply.success = false

variable {node saved after : RaftNode} {args : InstallSnapshotArgs} {install : PendingInstall}
  {termFault saveFault : Fault} {id : NodeID}

/-- All three are the index of the stored snapshot. -/
theorem restartIndexes_eq (id : NodeID) (store : WALStorage) :
    restartIndexes id store = (appendAll Log.new store.contents.entries).map fun _ =>
      let index := store.contents.loadSnapshot.lastIncludedIndex
      (index, index, index) := by
  cases appended : appendAll Log.new store.contents.entries with
  | error error => simp [restartIndexes, newRaftNodeWithStorage, restoreLog, appended, Except.map]
  | ok whole =>
      have base : Log.new.lastIndex = 0 := rfl
      obtain ⟨log, restored⟩ := restoreLog_ok_iff.mpr (base ▸ appendAll_ok_iff.mp ⟨whole, appended⟩)
      have boundary := (restoreLog_entries restored).1
      simp [restartIndexes, newRaftNodeWithStorage, restored, Except.map, boundary]

theorem persistInstall_pending
    (persisted : node.persistInstall args saveFault = .done saved (.pending install)) :
    install.args = args ∧ saved.log = node.log ∧ node.log.lastIncludedIndex < args.lastIncludedIndex ∧
      saved.storage.contents = { node.storage.contents with snapshot := some args.snapshot } := by
  unfold persistInstall at persisted
  dsimp only at persisted
  split at persisted
  · cases persisted
  · rename_i ahead
    split at persisted
    · cases persisted
    · cases saveFault with
      | none =>
          cases persisted
          exact ⟨rfl, rfl, not_le.mp ahead, rfl⟩
      | writeFails | syncFails | diskFull | crash => cases persisted

/-- What the first section of the call leaves behind. -/
theorem installSnapshot_pending
    (persisted : node.installSnapshot args termFault saveFault = .done saved (.pending install)) :
    install.args = args ∧ saved.log.lastIncludedIndex < args.lastIncludedIndex ∧
      saved.storage.contents.entries = node.storage.contents.entries ∧
      saved.storage.contents.snapshot = some args.snapshot := by
  have ensures : (node.installSnapshot args termFault saveFault).Ensures
      (fun saved result => ∀ install, result = .pending install →
        install.args = args ∧ saved.log.lastIncludedIndex < args.lastIncludedIndex ∧
          saved.storage.contents.entries = node.storage.contents.entries ∧
          saved.storage.contents.snapshot = some args.snapshot) (fun _ => True) := by
    refine node.installSnapshot_of_persist termFault saveFault (fun _ _ _ _ replied => nomatch replied)
      (fun _ _ => trivial) fun middle saves _ => ?_
    cases outcome : middle.persistInstall args saveFault with
    | crashed wal => trivial
    | done saved result =>
        rintro install rfl
        obtain ⟨same, log, ahead, contents⟩ := persistInstall_pending outcome
        obtain ⟨_, entries, _⟩ := saves.sameLog
        rw [log, contents]
        exact ⟨same, ahead, entries, rfl⟩
  rw [persisted] at ensures
  exact ensures install rfl

/-- The last section fails only when the storage cannot be compacted, and then changes nothing in it. -/
theorem finishInstall_fails {fault : Fault} {reply : InstallSnapshotReply}
    (ahead : node.log.lastIncludedIndex < install.args.lastIncludedIndex)
    (finished : node.finishInstall install fault = .done after reply) (failed : reply.success = false) :
    after.storage = node.storage := by
  have reaches : node.log.lastIncludedIndex < install.args.snapshot.lastIncludedIndex := ahead
  unfold finishInstall at finished
  dsimp only at finished
  rw [Log.restoreSnapshot_ok reaches] at finished
  unfold WALStorage.compactDurably at finished
  cases tried : node.storage.compact install.args.snapshot with
  | error error =>
      rw [tried] at finished
      cases finished
      rfl
  | ok compacted =>
      rw [tried] at finished
      cases fault with
      | none =>
          cases finished
          cases failed
      | crash => cases finished
      | writeFails | syncFails | diskFull =>
          cases finished
          rfl

/-- A failed installation leaves its snapshot in the storage. -/
theorem FailsInstall.contents
    (persisted : node.installSnapshot args termFault saveFault = .done saved (.pending install))
    (fails : saved.FailsInstall install after) :
    after.storage.contents.entries = node.storage.contents.entries ∧
      after.storage.contents.loadSnapshot = args.snapshot := by
  obtain ⟨same, ahead, entries, snapshot⟩ := installSnapshot_pending persisted
  have kept : after.storage = saved.storage := by
    rcases fails with rfl | ⟨fault, reply, finished, failed⟩
    · rfl
    · exact finishInstall_fails (same ▸ ahead) finished failed
  rw [kept, Contents.loadSnapshot, snapshot]
  exact ⟨entries, rfl⟩

/-- A restart that works starts from the snapshot that could not be installed. -/
theorem failed_install_moves
    (persisted : node.installSnapshot args termFault saveFault = .done saved (.pending install))
    (fails : saved.FailsInstall install after) {indexes : ℕ × ℕ × ℕ}
    (restarted : restartIndexes id node.storage = .ok indexes) :
    restartIndexes id after.storage =
      .ok (args.lastIncludedIndex, args.lastIncludedIndex, args.lastIncludedIndex) := by
  obtain ⟨entries, snapshot⟩ := fails.contents persisted
  rw [restartIndexes_eq] at restarted ⊢
  rw [entries, snapshot]
  cases appended : appendAll Log.new node.storage.contents.entries with
  | error error =>
      rw [appended] at restarted
      cases restarted
  | ok whole => rfl

/-- A follower with nothing but a restore handler. -/
def newcomer : RaftNode where
  id := "B"
  persistent := Contents.empty.state
  commitIndex := 0
  lastApplied := 0
  nextIndex := fun _ => none
  matchIndex := fun _ => 0
  votesReceived := []
  role := .follower
  leaderID := ""
  log := .new
  storage := .openEmpty
  peerIDs := ["A"]
  canRestore := true
  storageWriteBlocked := false

def firstSnapshot : InstallSnapshotArgs :=
  { term := 1, leaderID := "A", lastIncludedIndex := 1, lastIncludedTerm := 1, data := [] }

end RaftNode

end Raftiq
