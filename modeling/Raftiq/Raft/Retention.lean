import Raftiq.Raft.Applying

namespace Raftiq

/-! An entry that is not applied yet stays in the log, unless a leader replaces it or a snapshot is
installed. -/

namespace Log

variable {log after : Log} {entry : LogEntry}

theorem get_of_mem (member : entry ∈ log.entries) : log.get entry.index = some entry := by
  have above := (log.numbered.mem_index member).1
  unfold get
  rw [if_neg (by omega)]
  cases found : log.entries.find? (·.index = entry.index) with
  | none => simpa using List.find?_eq_none.mp found entry member
  | some other =>
      have same := List.find?_some found
      rw [log.numbered.eq_of_index (List.mem_of_find?_eq_some found) member (by simpa using same)]

theorem truncateFrom_keeps (member : entry ∈ log.entries) {index : ℕ} (below : entry.index < index) :
    entry ∈ (log.truncateFrom index).entries := by
  unfold truncateFrom
  split
  · omega
  · split
    · exact member
    · obtain ⟨front, back, split⟩ := List.append_of_mem member
      have sorted := log.numbered.sorted
      rw [split] at sorted
      have early : ∀ other ∈ front ++ [entry], other.index < index := by
        intro other inside
        rcases List.mem_append.mp inside with before | same
        · exact ((List.pairwise_append.mp sorted).2.2 other before entry List.mem_cons_self).trans below
        · rw [List.mem_singleton.mp same]
          exact below
      dsimp only
      rw [split, ← List.singleton_append, ← List.append_assoc,
        List.takeWhile_append_of_pos fun other inside => decide_eq_true (early other inside)]
      simp

theorem compact_keeps {snapshot : Snapshot} (compacted : log.compact snapshot = .ok after)
    (member : entry ∈ log.entries) (above : snapshot.lastIncludedIndex < entry.index) : entry ∈ after.entries := by
  rw [compact_entries compacted]
  exact List.mem_filter.mpr ⟨member, decide_eq_true above⟩

end Log

namespace RaftNode

variable {node : RaftNode} {entry : LogEntry}

theorem appendEach_keeps {log : Log} (member : entry ∈ log.entries) (entries : List LogEntry) :
    entry ∈ (appendEach log entries).1.entries := by
  induction entries generalizing log with
  | nil => exact member
  | cons next rest ih =>
      unfold appendEach
      rcases log.append_cases next with ⟨after, appended, _, grown, _⟩ | ⟨_, refused⟩
      · rw [appended]
        exact ih (grown ▸ List.mem_append_left _ member)
      · rw [refused]
        exact member

theorem publishEntries_keeps {log : Log} (member : entry ∈ log.entries) (entries : List LogEntry) :
    (node.publishEntries log entries).Ensures (fun after _ => entry ∈ after.log.entries) fun _ => True := by
  have keeps := appendEach_keeps member entries
  unfold publishEntries
  split
  · rename_i appended
    rw [appended] at keeps
    exact keeps
  · rename_i appended
    rw [appended] at keeps
    exact keeps

/-- A call does not contradict the log up to an index. -/
def Agrees (log : Log) (index : ℕ) (args : AppendEntriesArgs) : Prop :=
  ∀ entry ∈ args.entries, entry.index ≤ index → ∀ held ∈ log.get entry.index, held.term = entry.term

theorem reconcileReplicatedEntriesLocked_keeps {args : AppendEntriesArgs} (member : entry ∈ node.log.entries)
    (agrees : Agrees node.log entry.index args) (fault : Fault) :
    (node.reconcileReplicatedEntriesLocked args.entries fault).Ensures
      (fun after _ => entry ∈ after.log.entries) fun _ => True := by
  unfold reconcileReplicatedEntriesLocked
  split
  · exact member
  · split
    · trivial
    · exact member
    · exact publishEntries_keeps member _
  · rename_i start new found
    split
    · trivial
    · exact member
    · refine publishEntries_keeps (Log.truncateFrom_keeps member ?_) _
      obtain ⟨incoming, _, held, _, inside, index, looked, differ⟩ := firstNew_conflict found
      by_contra late
      exact differ (agrees incoming inside (by omega) held (index ▸ looked))

theorem acceptEntries_keeps {args : AppendEntriesArgs} (member : entry ∈ node.log.entries)
    (agrees : Agrees node.log entry.index args) (fault : Fault) :
    (node.acceptEntries args fault).Ensures (fun after _ => entry ∈ after.log.entries) fun _ => True := by
  unfold acceptEntries
  split
  · exact member
  · refine Outcome.Ensures.andThen (@reconcileReplicatedEntriesLocked_keeps
      { node with role := .follower, leaderID := args.leaderID } _ _ member agrees fault)
      fun after reconciled kept => ?_
    cases reconciled with
    | error error => exact kept
    | ok _ => exact kept

theorem appendEntries_keeps {args : AppendEntriesArgs} (member : entry ∈ node.log.entries)
    (agrees : Agrees node.log entry.index args) (termFault logFault : Fault) :
    (node.appendEntries args termFault logFault).Ensures (fun after _ => entry ∈ after.log.entries)
      fun _ => True := by
  unfold appendEntries
  split
  · exact member
  · split
    · refine Outcome.Ensures.andThen (node.enterTerm_applies termFault args.term) fun middle durable frame => ?_
      rw [← frame.log] at member agrees
      split
      · exact acceptEntries_keeps member agrees logFault
      · exact member
    · exact acceptEntries_keeps member agrees logFault

theorem createSnapshot_keeps (member : entry ∈ node.log.entries) (ahead : node.lastApplied < entry.index)
    (index : ℕ) (data : Bytes) (saveFault compactFault : Fault) :
    (node.createSnapshot index data saveFault compactFault).Ensures
      (fun after _ => entry ∈ after.log.entries) fun _ => True := by
  unfold createSnapshot
  split
  · exact member
  · rename_i accepted
    have applied := (validateSnapshotRequestLocked_ok accepted).1
    unfold persistAndCompactSnapshotLocked
    split
    · trivial
    · exact member
    · split
      · trivial
      · exact member
      · split
        · exact member
        · rename_i compacted
          exact Log.compact_keeps compacted member (applied.trans_lt ahead)

end RaftNode

/-- A section that does not contradict the log up to an index, and installs no snapshot. -/
def Event.Spares (node : RaftNode) (index : ℕ) : Event → Prop
  | .receiveAppendEntries args _ _ _ => RaftNode.Agrees node.log index args
  | .finishInstall _ _ => False
  | _ => True

theorem Process.effect_retains (process : Process) {event : Event} {entry : LogEntry}
    (member : entry ∈ process.node.log.entries) (ahead : process.node.lastApplied < entry.index)
    (spares : event.Spares process.node entry.index) :
    (process.effect event).Ensures (fun after _ => entry ∈ after.log.entries) fun _ => True := by
  have framed : ∀ {α : Type} {outcome : Outcome α}, outcome.Frames process.node →
      outcome.forget.Ensures (fun after _ => entry ∈ after.log.entries) fun _ => True :=
    fun frames => (frames.mono (fun _ _ frame => frame.log ▸ member) fun _ _ => trivial).forget
  cases event with
  | finishInstall install fault => exact spares.elim
  | startElection fault => exact framed (process.node.startElection_applies fault)
  | receiveRequestVote args termFault voteFault =>
      exact framed (process.node.requestVote_applies termFault voteFault args)
  | receiveVoteReply args reply fault => exact framed (process.node.handleVoteReply_applies fault args.term reply)
  | tryBecomeLeader => exact framed process.node.tryBecomeLeader_applies
  | propose data fault =>
      refine ((process.node.propose_applies fault data).mono (fun after result proposed => ?_)
        fun _ _ => trivial).forget
      obtain ⟨_, _, proposed⟩ := proposed
      cases result with
      | error error => exact proposed ▸ member
      | ok index =>
          rcases process.node.log.append_cases ⟨index, process.node.persistent.currentTerm, data⟩ with
            ⟨grown, appended, _, entries, _⟩ | ⟨_, refused⟩
          · cases appended.symm.trans proposed.2
            exact entries ▸ List.mem_append_left _ member
          · cases refused.symm.trans proposed.2
  | receiveAppendEntries args purpose termFault logFault =>
      exact (RaftNode.appendEntries_keeps member spares termFault logFault).forget
  | receiveAppendReply peerID args reply fault =>
      exact framed (process.node.handleAppendEntriesReply_applies fault peerID args reply)
  | pickCommitted stateFault leaveFault =>
      refine ((process.node.pickCommitted_picks stateFault leaveFault).mono (fun after stage picked => ?_)
        fun _ _ => trivial).forget
      cases picked with
      | command found command same => exact same ▸ member
      | stopped frame => exact frame.log ▸ member
      | configured next published log applied => exact log ▸ member
  | markApplied =>
      simp only [effect]
      split
      · exact member
      · exact member
  | createSnapshot index data saveFault compactFault =>
      exact (RaftNode.createSnapshot_keeps member ahead index data saveFault compactFault).forget
  | receiveInstallSnapshot args termFault saveFault =>
      exact framed (process.node.installSnapshot_applies termFault saveFault args)
  | receiveInstallReply peerID args reply fault =>
      exact framed (process.node.handleInstallSnapshotReply_applies fault peerID args reply)
  | receiveProbeResult read peerID result fault =>
      simp only [effect]
      split
      · exact framed (process.node.handleReadResult_applies fault _ peerID result)
      · exact member
  | requestVotes | replicateTo peerID | sendApplied | sendInstallSnapshot peerID
  | restoreSnapshot install succeeds | beginRead read | probeRead read peerID | cancelRead read => exact member

end Raftiq
